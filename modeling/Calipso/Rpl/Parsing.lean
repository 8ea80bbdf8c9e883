import Calipso.Rpl.Message
import Calipso.Wire.Walk

/-!
# Which messages are read inside their bounds

The option loop of `dio_input` checks that an option is complete after it has read its header, the
one of `dao_input` does not check it at all. `parsing_iff` says which messages are read within
their length all the same.
-/

namespace Calipso.Rpl

open Wire Net

/-! ### The DAO -/

/-- The variables of `dao_input` that the message fills; `addr` has no value before a target
option. -/
structure Dao where
  flags : UInt8
  sequence : UInt8
  addr : Option IpAddr
  prefixlen : UInt8
  lifetime : UInt8
deriving DecidableEq

/-- What `dao_input` finds around the message: the current DAG and the default lifetime of the
instance with an identifier, whether the sender is a parent that is nearer to the root, or the
preferred one, and whether it is in the neighbor cache or can be added. -/
structure DaoEnv where
  currentDag : UInt8 → Option (IpAddr × UInt8)
  sender : IpAddr
  loop : Bool
  nbr : Bool

/-- The `switch` of `dao_input` for an option at `i`. -/
def daoOption (m : Memory UInt8) (i : Nat) (dao : Dao) : Log Touch Dao :=
  if m i = optionTarget then do
    Log.entry (.read (i + 3) 1)
    let n := ((m (i + 3)).toNat + 7) / 8
    Log.entry (.copy 16)
    Log.entry (.read (i + 4) n)
    Log.entry (.copy n)
    pure { dao with
      prefixlen := m (i + 3)
      addr := some (copyPrefix m (i + 4) n (Vector.replicate 16 0)) }
  else if m i = optionTransit then do
    Log.entry (.read (i + 5) 1)
    pure { dao with lifetime := m (i + 5) }
  else pure dao

/-- The option loop of `dao_input` from `i` on. -/
def daoOptions (m : Memory UInt8) (bufferLength i : Nat) (dao : Dao) : Log Touch Dao :=
  if i < bufferLength then do
    readHeader m i
    let dao ← daoOption m i dao
    daoOptions m bufferLength (i + optionLen m i) dao
  else pure dao
termination_by bufferLength - i
decreasing_by
  have := optionLen_pos m i
  omega

/-- `RPL_DAO_D_FLAG` -/
def daoDFlag : UInt8 := 0x40

/-- Where the options of a DAO start. -/
def daoOptionsStart (m : Memory UInt8) : Nat := if m 1 &&& daoDFlag ≠ 0 then 20 else 4

/-- `dao_input` behind its option loop, as far as it depends on the message. -/
def daoRoute (env : DaoEnv) (dao : Dao) : Log Touch (Option Dao) := do
  -- `uip_ds6_route_lookup`
  Log.entry (.use dao.addr.isSome)
  if dao.lifetime = 0 then pure none
  else if isAddrMcast env.sender = false ∧ env.loop then pure none
  else if env.nbr then do
    -- `p` is looked up for a DAO that was learned from a unicast only
    Log.entry (.use (isAddrMcast env.sender = false))
    Log.entry (.use dao.addr.isSome)
    pure (some dao)
  else pure none

/-- `dao_input`; the result is what a route is added for. -/
def daoInput (env : DaoEnv) (m : Memory UInt8) (len : Nat) : Log Touch (Option Dao) := do
  let bufferLength := len % 256
  Log.entry (.read 0 1)
  match env.currentDag (m 0) with
  | none => pure none
  | some (dagId, defaultLifetime) => do
    Log.entry (.read 1 1)
    Log.entry (.read 3 1)
    let dao := ⟨m 1, m 3, none, 0, defaultLifetime⟩
    if m 1 &&& daoDFlag ≠ 0 then do
      Log.entry (.read 4 16)
      if vectorAt m 4 16 ≠ dagId then pure none
      else do
        let dao ← daoOptions m bufferLength (daoOptionsStart m) dao
        daoRoute env dao
    else do
      let dao ← daoOptions m bufferLength (daoOptionsStart m) dao
      daoRoute env dao

/-! ### Well-formed options -/

/-- The loop of `dio_input` goes on behind the option at `i`. -/
structure DioOptionAccepted (m : Memory UInt8) (bufferLength i : Nat) : Prop where
  complete : optionLen m i + i ≤ bufferLength
  container : m i = optionDagMetricContainer → 6 ≤ optionLen m i ∧
    (m (i + 2) = DagMc.type .none ∨ m (i + 2) = DagMc.type .etx ∨ m (i + 2) = DagMc.type .energy)
  route : m i = optionRouteInfo → 9 ≤ optionLen m i ∧
    ((m (i + 2)).toNat + 7) / 8 + 8 ≤ optionLen m i ∧ (m (i + 2)).toNat ≤ 128
  conf : m i = optionDagConf → optionLen m i = 16
  prefixInfo : m i = optionPrefixInfo → optionLen m i = 32

/-- The option at `i` is read within `len` bytes: the length byte belongs to the message, and so
do the two bytes of an object behind a metric container. -/
structure DioOptionFits (m : Memory UInt8) (bufferLength len i : Nat) : Prop where
  header : m i ≠ optionPad1 → i + 2 ≤ len
  object : m i = optionDagMetricContainer → optionLen m i + i ≤ bufferLength →
    6 ≤ optionLen m i → m (i + 2) = DagMc.type .etx ∨ m (i + 2) = DagMc.type .energy → i + 8 ≤ len

/-- The condition on a DIO of `len` bytes. -/
def DioFits (nbr : Bool) (m : Memory UInt8) (len : Nat) : Prop :=
  nbr = true → 24 ≤ len ∧
    ∀ i, Arrives (optionLen m) (len % 256) (DioOptionAccepted m (len % 256)) 24 i →
      DioOptionFits m (len % 256) len i

/-- The option at `i` of a DAO is read within `len` bytes, and its prefix has at most 128 bits. -/
structure DaoOptionFits (m : Memory UInt8) (len i : Nat) : Prop where
  header : m i ≠ optionPad1 → i + 2 ≤ len
  target : m i = optionTarget → i + 4 + ((m (i + 3)).toNat + 7) / 8 ≤ len ∧ (m (i + 3)).toNat ≤ 128
  transit : m i = optionTransit → i + 6 ≤ len

/-- The condition on a DAO of `len` bytes: its fields and options are read within it, and it has a
target option. -/
structure DaoFits (env : DaoEnv) (m : Memory UInt8) (len : Nat) : Prop where
  nonempty : 1 ≤ len
  base : env.currentDag (m 0) ≠ none → daoOptionsStart m ≤ len
  options : ∀ dagId defaultLifetime, env.currentDag (m 0) = some (dagId, defaultLifetime) →
    (m 1 &&& daoDFlag ≠ 0 → vectorAt m 4 16 = dagId) →
    (∀ i, Arrives (optionLen m) (len % 256) (fun _ => True) (daoOptionsStart m) i →
      DaoOptionFits m len i) ∧
    ∃ i, Arrives (optionLen m) (len % 256) (fun _ => True) (daoOptionsStart m) i ∧
      m i = optionTarget

variable {m : Memory UInt8} {bufferLength len i : Nat} {dio : Dio} {dao : Dao}

theorem all_readHeader : (readHeader m i).All (Touch.Within len) ↔
    i + 1 ≤ len ∧ (m i ≠ optionPad1 → i + 2 ≤ len) := by
  simp only [readHeader, Log.all_bind, Log.all_entry, Log.all_ite, Log.all_pure, Touch.Within]
  by_cases h : m i = optionPad1
  · simp [h]
  · simp only [h, not_false_eq_true, true_implies, false_implies, true_and, ne_eq]

theorem all_dioMetricContainer (hsix : i + 6 ≤ len) :
    (dioMetricContainer m i dio).All (Touch.Within len) ↔
      (m (i + 2) = DagMc.type .etx ∨ m (i + 2) = DagMc.type .energy → i + 8 ≤ len) := by
  have hread : i + 2 + 4 ≤ len := by omega
  simp only [dioMetricContainer, Log.all_bind, Log.all_entry, Log.all_ite, Log.all_pure,
    Touch.Within, hread, true_and, and_true, implies_true]
  by_cases hnone : m (i + 2) = DagMc.type .none
  · have hetx : DagMc.type .none ≠ DagMc.type .etx := by decide
    have henergy : DagMc.type .none ≠ DagMc.type .energy := by decide
    simp [hnone, hetx, henergy]
  · by_cases hetx : m (i + 2) = DagMc.type .etx
    · simp [hetx, DagMc.type]
    · simp [hnone, hetx]

theorem all_dioRouteInfo {n : Nat} (hnine : 9 ≤ n) (hend : i + n ≤ len) :
    (dioRouteInfo m i n dio).All (Touch.Within len) := by
  simp only [dioRouteInfo, Log.all_bind, Log.all_entry, Log.all_ite, Log.all_pure, Touch.Within]
  refine ⟨by omega, fun h => ⟨by omega, by omega, trivial⟩, fun _ => trivial⟩

theorem all_dioDagConf (hend : i + 16 ≤ len) :
    (dioDagConf m i dio).All (Touch.Within len) := by
  simp only [dioDagConf, Log.all_bind, Log.all_entry, Log.all_pure, Touch.Within]
  exact ⟨by omega, by omega, trivial⟩

theorem all_dioPrefixInfo (hend : i + 32 ≤ len) :
    (dioPrefixInfo m i dio).All (Touch.Within len) := by
  simp only [dioPrefixInfo, Log.all_bind, Log.all_entry, Log.all_pure, Touch.Within]
  exact ⟨by omega, by omega, by omega, le_rfl, trivial⟩

/-- An option that is complete is read within the message, but for the object of a container. -/
theorem all_dioOption (hlen : bufferLength ≤ len) (hend : optionLen m i + i ≤ bufferLength) :
    (dioOption m i (optionLen m i) dio).All (Touch.Within len) ↔
      (m i = optionDagMetricContainer → 6 ≤ optionLen m i →
        m (i + 2) = DagMc.type .etx ∨ m (i + 2) = DagMc.type .energy → i + 8 ≤ len) := by
  unfold dioOption
  by_cases hmc : m i = optionDagMetricContainer
  · rw [if_pos hmc]
    by_cases hsix : optionLen m i < 6
    · have hnot : ¬ 6 ≤ optionLen m i := by omega
      simp [hsix, hnot]
    · rw [if_neg hsix, all_dioMetricContainer (by omega)]
      simp [hmc, not_lt.mp hsix]
  · rw [if_neg hmc]
    simp only [hmc, false_implies, iff_true, Log.all_ite, Log.all_pure, implies_true, and_true,
      true_and]
    refine ⟨fun _ hnine => all_dioRouteInfo (by omega) (by omega), fun _ => ⟨fun _ hsize => ?_,
      fun _ _ hsize => ?_⟩⟩
    · exact all_dioDagConf (by omega)
    · exact all_dioPrefixInfo (by omega)

theorem isSome_dioMetricContainer : (dioMetricContainer m i dio).value.isSome ↔
    m (i + 2) = DagMc.type .none ∨ m (i + 2) = DagMc.type .etx ∨
      m (i + 2) = DagMc.type .energy := by
  simp only [dioMetricContainer, Log.value_bind, Log.value_ite, Log.value_pure]
  split
  next hnone => exact iff_of_true rfl (.inl hnone)
  next hnone =>
    split
    next hetx => exact iff_of_true rfl (.inr (.inl hetx))
    next hetx =>
      split
      next henergy => exact iff_of_true rfl (.inr (.inr henergy))
      next henergy => simp [hnone, hetx, henergy]

theorem isSome_dioRouteInfo {n : Nat} : (dioRouteInfo m i n dio).value.isSome ↔
    ((m (i + 2)).toNat + 7) / 8 + 8 ≤ n ∧ (m (i + 2)).toNat ≤ 128 := by
  simp only [dioRouteInfo, Log.value_bind, Log.value_ite, Log.value_pure]
  split
  next h => simpa using h
  next h => simpa using h

/-- The loop goes on exactly behind the options that are accepted. -/
theorem isSome_dioOption (dio : Dio) (hend : optionLen m i + i ≤ bufferLength) :
    (dioOption m i (optionLen m i) dio).value.isSome ↔ DioOptionAccepted m bufferLength i := by
  unfold dioOption
  constructor
  · intro h
    refine ⟨hend, fun hmc => ?_, fun hroute => ?_, fun hconf => ?_, fun hinfo => ?_⟩
    · rw [if_pos hmc] at h
      by_cases hsix : optionLen m i < 6
      · simp [hsix] at h
      · rw [if_neg hsix, isSome_dioMetricContainer] at h
        exact ⟨not_lt.mp hsix, h⟩
    · rw [if_neg (by rw [hroute]; decide), if_pos hroute] at h
      by_cases hnine : optionLen m i < 9
      · simp [hnine] at h
      · rw [if_neg hnine, isSome_dioRouteInfo] at h
        exact ⟨not_lt.mp hnine, h⟩
    · rw [if_neg (by rw [hconf]; decide), if_neg (by rw [hconf]; decide), if_pos hconf] at h
      by_contra hsize
      simp [hsize] at h
    · rw [if_neg (by rw [hinfo]; decide), if_neg (by rw [hinfo]; decide),
        if_neg (by rw [hinfo]; decide), if_pos hinfo] at h
      by_contra hsize
      simp [hsize] at h
  · rintro ⟨-, hmc, hroute, hconf, hinfo⟩
    split
    next h =>
      rw [if_neg (by have := (hmc h).1; omega)]
      exact isSome_dioMetricContainer.mpr (hmc h).2
    next =>
      split
      next h =>
        rw [if_neg (by have := (hroute h).1; omega)]
        exact isSome_dioRouteInfo.mpr (hroute h).2
      next =>
        split
        next h => rw [if_neg (not_not.mpr (hconf h))]; rfl
        next =>
          split
          next h => rw [if_neg (not_not.mpr (hinfo h))]; rfl
          next => rfl

theorem all_dioOptions (hlen : bufferLength ≤ len) :
    (dioOptions m bufferLength i dio).All (Touch.Within len) ↔
      ∀ j, Arrives (optionLen m) bufferLength (DioOptionAccepted m bufferLength) i j →
        DioOptionFits m bufferLength len j := by
  induction i, dio using dioOptions.induct m bufferLength with
  | case1 i dio h ih =>
    rw [dioOptions, if_pos h, Arrives.forall_iff]
    simp only [Log.all_bind, all_readHeader, Log.all_ite, Log.all_pure, h, true_implies]
    by_cases hcut : bufferLength < optionLen m i + i
    · have hnot : ¬ DioOptionAccepted m bufferLength i := fun hacc => by
        have := hacc.complete
        omega
      simp only [hcut, hnot, not_true, false_implies, implies_true, and_true]
      constructor
      · rintro ⟨-, hheader⟩
        exact ⟨hheader, fun _ hend => by omega⟩
      · rintro ⟨hheader, -⟩
        exact ⟨by omega, hheader⟩
    · have hend := not_lt.mp hcut
      have hgoes := isSome_dioOption dio hend
      have hfits : DioOptionFits m bufferLength len i ↔
          (i + 1 ≤ len ∧ (m i ≠ optionPad1 → i + 2 ≤ len)) ∧
            (m i = optionDagMetricContainer → 6 ≤ optionLen m i →
              m (i + 2) = DagMc.type .etx ∨ m (i + 2) = DagMc.type .energy → i + 8 ≤ len) :=
        ⟨fun hf => ⟨⟨by omega, hf.header⟩, fun hmc => hf.object hmc hend⟩,
          fun hf => ⟨hf.1.2, fun hmc _ => hf.2 hmc⟩⟩
      simp only [hcut, false_implies, not_false_iff, true_implies, true_and,
        all_dioOption hlen hend, hfits, and_assoc, and_congr_right_iff]
      intro _ _ _
      cases hvalue : (dioOption m i (optionLen m i) dio).value with
      | none =>
        rw [hvalue] at hgoes
        have hnot : ¬ DioOptionAccepted m bufferLength i := fun hacc => by
          cases hgoes.mpr hacc
        simp [hnot]
      | some dio' =>
        rw [hvalue] at hgoes
        simp only [hgoes.mp rfl, true_implies]
        exact ih hcut dio'
  | case2 i dio h =>
    rw [dioOptions, if_neg h, Arrives.forall_iff]
    simp [h]

theorem all_dioInput (rplOf : ObjectiveFunction) (nbr : Bool) (m : Memory UInt8) (len : Nat) :
    (dioInput rplOf nbr m len).All (Touch.Within len) ↔ DioFits nbr m len := by
  cases nbr with
  | false => simp [dioInput, DioFits]
  | true =>
    simp only [dioInput, DioFits, if_true, true_implies, Log.all_bind, Log.all_entry, Touch.Within,
      all_dioOptions (Nat.mod_le len 256)]
    constructor
    · rintro ⟨-, -, -, -, hbase, -, hoptions⟩
      exact ⟨hbase, hoptions⟩
    · rintro ⟨hbase, hoptions⟩
      exact ⟨by omega, by omega, by omega, by omega, hbase, le_rfl, hoptions⟩

/-! ### Reading a DAO -/

theorem all_daoOption (hlen : i < len) : (daoOption m i dao).All (Touch.Within len) ↔
    (m i = optionTarget →
      i + 4 + ((m (i + 3)).toNat + 7) / 8 ≤ len ∧ (m (i + 3)).toNat ≤ 128) ∧
    (m i = optionTransit → i + 6 ≤ len) := by
  unfold daoOption
  by_cases htarget : m i = optionTarget
  · have htransit : optionTarget ≠ optionTransit := by decide
    simp only [htarget, htransit, if_true, true_implies, false_implies, and_true, Log.all_bind,
      Log.all_entry, Log.all_pure, Touch.Within]
    omega
  · by_cases htransit : m i = optionTransit
    · have htarget' : optionTransit ≠ optionTarget := by decide
      simp only [htransit, htarget', if_true, if_false, true_implies, false_implies, and_true,
        true_and, Log.all_bind, Log.all_entry, Log.all_pure, Touch.Within]
    · simp [htarget, htransit]

theorem all_daoOptions (hlen : bufferLength ≤ len) :
    (daoOptions m bufferLength i dao).All (Touch.Within len) ↔
      ∀ j, Arrives (optionLen m) bufferLength (fun _ => True) i j → DaoOptionFits m len j := by
  induction i, dao using daoOptions.induct m bufferLength with
  | case1 i dao h ih =>
    have hfits : DaoOptionFits m len i ↔ (i + 1 ≤ len ∧ (m i ≠ optionPad1 → i + 2 ≤ len)) ∧
        (m i = optionTarget →
          i + 4 + ((m (i + 3)).toNat + 7) / 8 ≤ len ∧ (m (i + 3)).toNat ≤ 128) ∧
        (m i = optionTransit → i + 6 ≤ len) :=
      ⟨fun hf => ⟨⟨by omega, hf.header⟩, hf.target, hf.transit⟩,
        fun hf => ⟨hf.1.2, hf.2.1, hf.2.2⟩⟩
    rw [daoOptions, if_pos h, Arrives.forall_iff]
    simp only [Log.all_bind, all_readHeader, all_daoOption (lt_of_lt_of_le h hlen), h, hfits,
      true_implies, and_assoc, ih]
  | case2 i dao h =>
    rw [daoOptions, if_neg h, Arrives.forall_iff]
    simp [h]

theorem isSome_daoOption : (daoOption m i dao).value.addr.isSome ↔
    m i = optionTarget ∨ dao.addr.isSome := by
  unfold daoOption
  split
  next h => simp [h]
  next h =>
    split
    · simp [h]
    · simp [h]

/-- The prefix has a value when there was a target option. -/
theorem isSome_daoOptions : (daoOptions m bufferLength i dao).value.addr.isSome ↔
    dao.addr.isSome ∨ ∃ j, Arrives (optionLen m) bufferLength (fun _ => True) i j ∧
      m j = optionTarget := by
  induction i, dao using daoOptions.induct m bufferLength with
  | case1 i dao h ih =>
    rw [daoOptions, if_pos h]
    simp only [Log.value_bind, ih, isSome_daoOption]
    constructor
    · rintro ((hi | hdao) | ⟨j, hj, htarget⟩)
      · exact .inr ⟨i, .first h, hi⟩
      · exact .inl hdao
      · exact .inr ⟨j, Arrives.iff_first_or_step.mpr (.inr ⟨h, trivial, hj⟩), htarget⟩
    · rintro (hdao | ⟨j, hj, htarget⟩)
      · exact .inl (.inr hdao)
      · rcases Arrives.iff_first_or_step.mp hj with ⟨rfl, -⟩ | ⟨-, -, hj⟩
        · exact .inl (.inl htarget)
        · exact .inr ⟨j, hj, htarget⟩
  | case2 i dao h =>
    rw [daoOptions, if_neg h]
    simp only [Log.value_pure, iff_self_or]
    rintro ⟨j, hj, -⟩
    exact absurd hj.first_lt_stop h

theorem all_daoRoute {env : DaoEnv} (hsender : isAddrMcast env.sender = false) :
    (daoRoute env dao).All (Touch.Within len) ↔ dao.addr.isSome := by
  simp only [daoRoute, hsender, Log.all_bind, Log.all_entry, Log.all_ite, Log.all_pure,
    Touch.Within]
  constructor
  · exact fun h => h.1
  · intro h
    simp [h]

/-- The options of a DAO and what is done with them. -/
theorem all_daoOptions_daoRoute {env : DaoEnv} (hsender : isAddrMcast env.sender = false)
    (dao : Dao) (haddr : dao.addr = none) (hlen : bufferLength ≤ len) :
    (daoOptions m bufferLength i dao >>= daoRoute env).All (Touch.Within len) ↔
      (∀ j, Arrives (optionLen m) bufferLength (fun _ => True) i j → DaoOptionFits m len j) ∧
        ∃ j, Arrives (optionLen m) bufferLength (fun _ => True) i j ∧ m j = optionTarget := by
  rw [Log.all_bind, all_daoOptions hlen, all_daoRoute hsender, isSome_daoOptions, haddr]
  simp

theorem all_daoInput {env : DaoEnv} (hsender : isAddrMcast env.sender = false)
    (m : Memory UInt8) (len : Nat) :
    (daoInput env m len).All (Touch.Within len) ↔ DaoFits env m len := by
  have hmod := Nat.mod_le len 256
  simp only [daoInput, Log.all_bind, Log.all_entry, Touch.Within]
  cases hdag : env.currentDag (m 0) with
  | none =>
    constructor
    · rintro ⟨hlen, -⟩
      exact ⟨hlen, fun h => absurd hdag h, fun _ _ h => by rw [hdag] at h; cases h⟩
    · intro h
      exact ⟨h.nonempty, Log.all_pure _⟩
  | some entry =>
    obtain ⟨dagId, defaultLifetime⟩ := entry
    have hne : env.currentDag (m 0) ≠ none := by
      rw [hdag]
      exact Option.some_ne_none _
    have hrest := all_daoOptions_daoRoute (i := daoOptionsStart m) (m := m) hsender
      ⟨m 1, m 3, none, 0, defaultLifetime⟩ rfl hmod
    rw [Log.all_bind] at hrest
    simp only [Log.all_bind, Log.all_entry, Log.all_ite, Log.all_pure, Touch.Within, hrest,
      implies_true, true_and, not_not]
    constructor
    · rintro ⟨hnonempty, -, hfour, hdagId, hplain⟩
      refine ⟨hnonempty, fun _ => ?_, fun dagId' defaultLifetime' heq hmatch => ?_⟩
      · rw [daoOptionsStart]
        split
        next hflag => exact (hdagId hflag).1
        next => exact hfour
      · rw [hdag, Option.some.injEq, Prod.mk.injEq] at heq
        by_cases hflag : m 1 &&& daoDFlag ≠ 0
        · exact (hdagId hflag).2 ((hmatch hflag).trans heq.1.symm)
        · exact hplain (not_not.mp hflag)
    · intro h
      have hbase := h.base hne
      have hoptions := h.options dagId defaultLifetime hdag
      rw [daoOptionsStart] at hbase
      by_cases hflag : m 1 &&& daoDFlag ≠ 0
      · rw [if_pos hflag] at hbase
        exact ⟨h.nonempty, by omega, by omega, fun _ => ⟨hbase, fun hmatch =>
          hoptions fun _ => hmatch⟩, fun hplain => absurd hplain hflag⟩
      · rw [if_neg hflag] at hbase
        exact ⟨h.nonempty, by omega, hbase, fun hset => absurd hset hflag, fun _ =>
          hoptions fun hset => absurd hset hflag⟩

/-- The instance 30 with the DAG 07..07. -/
def daoEnv : DaoEnv where
  currentDag id := if id = 30 then some (Vector.replicate 16 7, 255) else none
  sender := Vector.replicate 16 1
  loop := false
  nbr := true

/-- A target option with a prefix of 255 bits, in a message that has room for its 32 bytes. -/
def longPrefix : Memory UInt8 := placed 0 [30, 0, 0, 1, optionTarget, 34, 0, 255]

end Calipso.Rpl
