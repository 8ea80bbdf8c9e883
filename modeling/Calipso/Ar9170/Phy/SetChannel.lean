import Calipso.Ar9170.Usb.RegWrite

/-!
# Switching the channel

`ar9170_set_channel` goes through a series of steps that may fail, and starts over from a cold
reset when the device reports a failure. `set_channel_conforms_iff` says for which outcomes its
result and the channel it leaves are right.
-/

namespace Calipso.Ar9170.Phy

open Wreg

/-! ### The driver -/

/-- `enum ieee80211_band` -/
inductive Band
  | ghz2
  | ghz5
  | ghz60
  deriving DecidableEq

/-- `struct ieee80211_channel` -/
structure Channel where
  band : Band
  centerFreq : Nat
  deriving DecidableEq

/-- `enum nl80211_channel_type` -/
inductive ChannelType
  | noHt
  | ht20
  | ht40minus
  | ht40plus
  deriving DecidableEq

/-- `enum ar9170_bw` -/
inductive Bw
  | bw20
  | below40
  | above40
  deriving DecidableEq

/-- `nl80211_to_carl` -/
def ChannelType.toCarl : ChannelType → Bw
  | .noHt => .bw20
  | .ht20 => .bw20
  | .ht40minus => .below40
  | .ht40plus => .above40

/-- `enum ar9170_rf_init_mode` -/
inductive RfInitMode
  | none
  | warm
  | cold
  deriving DecidableEq

/-- What the switch reads of the driver and does not change: `hw->conf.channel_type`, whether
there is a 5 GHz band, `fw.hw_counters`, `eeprom.tx_mask`, the frequencies of the calibration
piers, and `heavy_clip` as `ar9170_set_power_cal` leaves it. With them go the registers that the
functions write in batches. -/
structure Hw where
  confType : ChannelType
  bands5GHz : Bool
  hwCounters : Bool
  txMask : UInt8
  calFreqPier2G : List UInt8
  calFreqPier5G : List UInt8
  heavyClip : UInt8
  initPhy : List Pair
  initPhyFromEeprom : List Pair
  initPowerCal : List Pair
  initRfBanks : List Pair
  initRfBank4 : List Pair
  setFreqCalData : List Pair
  setMacTpc : List Pair

/-- What comes of the writes and commands of a call of `ar9170_set_channel`; `ret` is `rf_res.ret`,
and `heavyClip` the last write. -/
structure Call where
  resetOn : Bool
  resetOff : Bool
  phy : Outcomes
  eeprom : Outcomes
  powerCal : Outcomes
  pll : Bool
  banks : Outcomes
  freqStart : Bool
  clipOff : Bool
  bank4 : Outcomes
  turbo : Bool
  freqCal : Outcomes
  tpc : Outcomes
  rfCmd : Bool
  ret : UInt32
  heavyClip : Bool

/-- The part of `struct ar9170` that the switch changes, with the writes so far and whether they
succeeded, and with what the device has reported of frequency changes. -/
structure State where
  channel : Option Channel
  htSettings : UInt8
  chanFail : UInt32
  totalChanFail : UInt32
  writes : List (List Pair × Bool)
  reports : List UInt32

def einval : Int := 22

/-! ### Steps -/

/-- A part of the switch: what it writes, the error it gives, what the switch returns then, and
whether no write of it failed. -/
structure Step where
  pairs : List Pair
  err : Int
  ret : Int
  complete : Bool
  deriving DecidableEq

/-- `!ar9170_write_rgstr`, or `!ar9170_exec_cmd` -/
def command (pairs : List Pair) (ok : Bool) : Step := ⟨pairs, if ok then 0 else 1, 1, ok⟩

/-- A batch from `ar9170_regwrite_begin` to `ar9170_regwrite_result`. -/
def batch (pairs : List Pair) (o : Outcomes) : Step :=
  let s := regwriteRun o pairs
  ⟨pairs, s.err, s.err, s.sent = pairs⟩

/-- A return without a write. -/
def fail (err : Int) : Step := ⟨[], err, err, true⟩

/-- `AR9170_PWR_REG_RESET` -/
def pwrRegReset : UInt32 := 0x1d4004

/-- `AR9170_PWR_REG_PLL_ADDAC` -/
def pwrRegPllAddac : UInt32 := 0x1d4014

/-- `AR9170_PHY_REG_HEAVY_CLIP_ENABLE` -/
def phyRegHeavyClipEnable : UInt32 := 0x1c59e0

/-- `AR9170_PHY_REG_TURBO` -/
def phyRegTurbo : UInt32 := 0x1c5804

/-- `AR9170_PWR_RESET_BB_COLD_RESET` or `AR9170_PWR_RESET_BB_WARM_RESET` -/
def resetVal (rfi : RfInitMode) : UInt32 := if rfi = .cold then 0x800 else 0x400

variable (hw : Hw) (o : Call) (channel : Channel)

/-- `ar9170_init_phy` -/
def initPhy : List Step :=
  [batch hw.initPhy o.phy, batch hw.initPhyFromEeprom o.eeprom, batch hw.initPowerCal o.powerCal] ++
    if hw.hwCounters then []
    else [command [(pwrRegPllAddac, if channel.band = .ghz2 then 0x5163 else 0x5143)] o.pll]

/-- The reset of the baseband. -/
def resetSteps (rfi : RfInitMode) : List Step :=
  [command [(pwrRegReset, resetVal rfi)] o.resetOn, command [(pwrRegReset, 0)] o.resetOff] ++
    initPhy hw o channel ++ [batch hw.initRfBanks o.banks]

/-- The value of `AR9170_PHY_REG_TURBO`. -/
def turboVal (bw : Bw) : UInt32 :=
  let tmp : UInt32 := 0x240
  let tmp := match bw with
    | .bw20 => tmp
    | .below40 => tmp ||| 0x84
    | .above40 => tmp ||| 0x94
  if hw.txMask = 1 then tmp else tmp ||| 0x100

/-- The write of `AR9170_PHY_REG_TURBO`: the switch returns 0 when it fails. -/
def turbo (bw : Bw) : Step := { command [(phyRegTurbo, turboVal hw bw)] o.turbo with ret := 0 }

/-- `ar9170_set_freq_cal_data` -/
def setFreqCalData : Step :=
  match channel.band with
  | .ghz2 =>
      if hw.calFreqPier2G.all fun f => f = 0xff then fail (-einval)
      else batch hw.setFreqCalData o.freqCal
  | .ghz5 =>
      if hw.calFreqPier5G.all fun f => f = 0xff then fail (-einval)
      else batch hw.setFreqCalData o.freqCal
  | .ghz60 => fail (-einval)

/-- `new_ht` -/
def newHt : UInt8 :=
  match hw.confType with
  | .noHt => 0
  | .ht20 => 0x4
  | .ht40minus => 0xc
  | .ht40plus => 0xc

/-- `warm_reset` -/
def warmReset (s : State) : Bool :=
  (match s.channel with
    | some old => old.band ≠ channel.band || old.centerFreq = channel.centerFreq ||
        s.htSettings ≠ newHt hw
    | none => true) ||
  !hw.bands5GHz && channel.centerFreq ≤ 2417

/-- The steps of `ar9170_set_channel` up to the report of the device. -/
def setChannelSteps (bw : Bw) (rfi : RfInitMode) (s : State) : List Step :=
  (if rfi ≠ .none || warmReset hw channel s then resetSteps hw o channel rfi else []) ++
    [command [] o.freqStart, command [(phyRegHeavyClipEnable, 0x200)] o.clipOff,
      batch hw.initRfBank4 o.bank4, turbo hw o bw, setFreqCalData hw o channel,
      batch hw.setMacTpc o.tpc, command [] o.rfCmd]

/-- The steps one after the other; the value is there when the switch returns. -/
def runSteps : List Step → State → State × Option Int
  | [], s => (s, none)
  | p :: ps, s =>
      let s := { s with writes := s.writes ++ [(p.pairs, p.complete)] }
      if p.err ≠ 0 then (s, some p.ret) else runSteps ps s

/-! ### The switch -/

/-- The last part of `ar9170_set_channel`. -/
def finish (s : State) : State × Int :=
  let set (s : State) : State := { s with channel := some channel, htSettings := newHt hw }
  if hw.heavyClip ≠ 0 then
    let s := { s with writes := s.writes ++
      [([(phyRegHeavyClipEnable, 0x200 ||| hw.heavyClip.toUInt32)], o.heavyClip)] }
    if o.heavyClip then (set s, 0) else (s, 1)
  else
    (set s, 0)

/-- `ar9170_set_channel`, for at most `n` calls of which the first is number `k`. -/
def setChannel (calls : Nat → Call) (type : ChannelType) :
    Nat → Nat → RfInitMode → State → Option (State × Int)
  | 0, _, _, _ => none
  | n + 1, k, rfi, s =>
      let steps := setChannelSteps hw (calls k) channel type.toCarl rfi s
      let r := runSteps steps { s with channel := none }
      match r.2 with
      | some ret => some (r.1, ret)
      | none =>
          let s := { r.1 with reports := r.1.reports ++ [(calls k).ret] }
          if (calls k).ret ≠ 0 then
            let s := { s with
              chanFail := s.chanFail + 1
              totalChanFail := s.totalChanFail + 1 }
            if rfi = .cold ∨ 3 < s.chanFail then some (s, 0)
            else (setChannel calls type n (k + 1) .cold s).map fun r =>
              if r.2 ≠ 0 then r else finish hw (calls k) channel r.1
          else
            some (finish hw (calls k) channel { s with chanFail := 0 })

/-! ### What is asked -/

/-- What is asked of the state and the result of a switch: the result is 0 when all writes
succeeded and the device reported success at last, the requested channel and settings are there
exactly then, and the channel is not cleared. -/
structure Right (s : State) (ret : Int) : Prop where
  result : ret = 0 ↔ (∀ w ∈ s.writes, w.2 = true) ∧ s.reports.getLast? = some 0
  channel : ret = 0 ↔ s.channel = some channel ∧ s.htSettings = newHt hw
  cleared : ret = 0 → s.channel ≠ none

/-- The switch ends, and what it leaves is right. -/
def Conforms (calls : Nat → Call) (type : ChannelType) (rfi : RfInitMode) (s : State) : Prop :=
  ∃ n r, setChannel hw channel calls type n 0 rfi { s with writes := [], reports := [] } = some r ∧
    Right hw channel r.1 r.2

/-- The first step that fails. -/
def firstFailure (steps : List Step) : Option Step := steps.find? fun p => p.err ≠ 0

/-- The write of `AR9170_PHY_REG_TURBO` when it fails. -/
def turboFailed (bw : Bw) : Step := turbo hw { o with turbo := false } bw

/-- The heavy clip is restored, or there is none. -/
def Clips : Prop := hw.heavyClip = 0 ∨ o.heavyClip = true

/-- The outcomes for which a second call from a cold reset leaves what is right: it comes to no
report, or its last write fails, or it goes well as a whole and so does the last write of the first
call. Where it ends without an error but not well, the last write of the first call fails. -/
structure RetryHolds (calls : Nat → Call) (bw : Bw) (first retry : List Step) : Prop where
  turbo : firstFailure retry = some (turboFailed hw (calls 1) bw) → ¬Clips hw (calls 0)
  report : firstFailure retry = none → (calls 1).ret ≠ 0 → ¬Clips hw (calls 0)
  success : firstFailure retry = none → (calls 1).ret = 0 → Clips hw (calls 1) →
    Clips hw (calls 0) ∧ ∀ p ∈ first ++ retry, p.complete = true

/-- The outcomes for which a switch leaves what is right: the first step that fails is not the
write of `AR9170_PHY_REG_TURBO`; a batch that gives no error is complete where the switch goes
well; and a failure that the device reports is not from a cold reset, not one of too many, and the
second call is right. -/
structure Holds (calls : Nat → Call) (type : ChannelType) (rfi : RfInitMode) (s : State) :
    Prop where
  turbo : firstFailure (setChannelSteps hw (calls 0) channel type.toCarl rfi s) ≠
    some (turboFailed hw (calls 0) type.toCarl)
  success : firstFailure (setChannelSteps hw (calls 0) channel type.toCarl rfi s) = none →
    (calls 0).ret = 0 → Clips hw (calls 0) →
      ∀ p ∈ setChannelSteps hw (calls 0) channel type.toCarl rfi s, p.complete = true
  retry : firstFailure (setChannelSteps hw (calls 0) channel type.toCarl rfi s) = none →
    (calls 0).ret ≠ 0 → rfi ≠ .cold ∧ ¬3 < s.chanFail + 1 ∧
      RetryHolds hw calls type.toCarl
        (setChannelSteps hw (calls 0) channel type.toCarl rfi s)
        (setChannelSteps hw (calls 1) channel type.toCarl .cold { s with channel := none })

/-! ### Steps that fail -/

variable {hw o channel}

/-- A step that returns an error when it fails. -/
def Step.Plain (p : Step) : Prop := p.err ≠ 0 → p.ret ≠ 0

theorem plain_command (pairs : List Pair) (ok : Bool) : (command pairs ok).Plain :=
  fun _ => Int.one_ne_zero

theorem plain_batch (pairs : List Pair) (o : Outcomes) : (batch pairs o).Plain := id

theorem plain_fail (err : Int) : (fail err).Plain := id

theorem plain_of_mem_initPhy : ∀ p ∈ initPhy hw o channel, p.Plain := by
  unfold initPhy
  simp only [List.cons_append, List.nil_append, List.forall_mem_cons]
  refine ⟨plain_batch _ _, plain_batch _ _, plain_batch _ _, ?_⟩
  cases hw.hwCounters with
  | true => exact List.forall_mem_nil _
  | false => exact List.forall_mem_singleton.mpr (plain_command _ _)

theorem plain_of_mem_resetSteps {rfi : RfInitMode} :
    ∀ p ∈ resetSteps hw o channel rfi, p.Plain := by
  unfold resetSteps
  simp only [List.cons_append, List.nil_append, List.forall_mem_cons]
  refine ⟨plain_command _ _, plain_command _ _, List.forall_mem_append.mpr ⟨?_, ?_⟩⟩
  · exact plain_of_mem_initPhy
  · exact List.forall_mem_singleton.mpr (plain_batch _ _)

theorem plain_setFreqCalData : (setFreqCalData hw o channel).Plain := by
  unfold setFreqCalData
  cases channel.band with
  | ghz2 =>
      simp only
      split_ifs
      · exact plain_fail _
      · exact plain_batch _ _
  | ghz5 =>
      simp only
      split_ifs
      · exact plain_fail _
      · exact plain_batch _ _
  | ghz60 => exact plain_fail _

theorem mem_setChannelSteps {bw : Bw} {rfi : RfInitMode} {s : State} :
    ∀ p ∈ setChannelSteps hw o channel bw rfi s, p.Plain ∨ p = turbo hw o bw := by
  unfold setChannelSteps
  refine List.forall_mem_append.mpr ⟨fun p hp => .inl ?_, ?_⟩
  · split_ifs at hp
    · exact plain_of_mem_resetSteps p hp
    · cases hp
  · simp only [List.forall_mem_cons]
    exact ⟨.inl (plain_command _ _), .inl (plain_command _ _), .inl (plain_batch _ _), .inr trivial,
      .inl plain_setFreqCalData, .inl (plain_batch _ _), .inl (plain_command _ _),
      List.forall_mem_nil _⟩

/-- The switch returns 0 at a step that fails only for the write of `AR9170_PHY_REG_TURBO`. -/
theorem ret_eq_zero_iff {bw : Bw} {rfi : RfInitMode} {s : State} {p : Step}
    (hp : firstFailure (setChannelSteps hw o channel bw rfi s) = some p) :
    p.ret = 0 ↔ p = turboFailed hw o bw := by
  have herr : p.err ≠ 0 := by simpa using List.find?_some hp
  constructor
  · intro hret
    rcases mem_setChannelSteps p (List.mem_of_find?_eq_some hp) with hplain | rfl
    · exact absurd hret (hplain herr)
    · unfold turboFailed turbo command at herr ⊢
      cases hok : o.turbo with
      | true => exact absurd (if_pos hok) herr
      | false => rfl
  · rintro rfl
    rfl

/-- The steps run to the end, or to the first one that fails. -/
theorem runSteps_spec (steps : List Step) (s : State) :
    firstFailure steps = none ∧ runSteps steps s =
        ({ s with writes := s.writes ++ steps.map fun p => (p.pairs, p.complete) }, none) ∨
      ∃ p ws, firstFailure steps = some p ∧
        runSteps steps s = ({ s with writes := s.writes ++ ws }, some p.ret) := by
  induction steps generalizing s with
  | nil => exact .inl ⟨rfl, by simp [runSteps]⟩
  | cons p steps ih =>
      by_cases herr : p.err = 0
      · have hskip : firstFailure (p :: steps) = firstFailure steps :=
          List.find?_cons_of_neg (by simpa using herr)
        have hrun : runSteps (p :: steps) s =
            runSteps steps { s with writes := s.writes ++ [(p.pairs, p.complete)] } :=
          if_neg (not_not.mpr herr)
        rw [hskip, hrun]
        rcases ih { s with writes := s.writes ++ [(p.pairs, p.complete)] } with
          ⟨hnone, heq⟩ | ⟨q, ws, hfirst, heq⟩
        · refine .inl ⟨hnone, heq.trans ?_⟩
          rw [List.append_assoc]
          rfl
        · refine .inr ⟨q, (p.pairs, p.complete) :: ws, hfirst, heq.trans ?_⟩
          rw [List.append_assoc]
          rfl
      · refine .inr ⟨p, [(p.pairs, p.complete)], ?_, if_pos herr⟩
        exact List.find?_cons_of_pos (by simpa using herr)

/-! ### The last write -/

/-- The channel is set, behind the writes `ws`. -/
def State.switched (s : State) (hw : Hw) (channel : Channel) (ws : List (List Pair × Bool)) :
    State :=
  { s with writes := s.writes ++ ws, channel := some channel, htSettings := newHt hw }

/-- A write is added. -/
def State.wrote (s : State) (w : List Pair × Bool) : State :=
  { s with writes := s.writes ++ [w] }

/-- The last part succeeds. -/
theorem finish_of_clips (h : Clips hw o) (channel : Channel) (s : State) :
    ∃ ws, (∀ w ∈ ws, w.2 = true) ∧ finish hw o channel s = (s.switched hw channel ws, 0) := by
  unfold finish
  by_cases hclip : hw.heavyClip = 0
  · refine ⟨[], List.forall_mem_nil _, ?_⟩
    rw [if_neg (not_not.mpr hclip), State.switched, List.append_nil]
  · have hok : o.heavyClip = true := h.resolve_left hclip
    refine ⟨[([(phyRegHeavyClipEnable, 0x200 ||| hw.heavyClip.toUInt32)], true)], ?_, ?_⟩
    · exact List.forall_mem_singleton.mpr rfl
    · rw [if_pos hclip]
      simp only [hok, if_true]
      rfl

/-- The last part leaves the state but for its write. -/
theorem finish_of_not_clips (h : ¬Clips hw o) (channel : Channel) (s : State) :
    ∃ ps, finish hw o channel s = (s.wrote (ps, false), 1) := by
  rw [Clips, not_or, Bool.not_eq_true] at h
  refine ⟨[(phyRegHeavyClipEnable, 0x200 ||| hw.heavyClip.toUInt32)], ?_⟩
  unfold finish
  rw [if_pos h.1]
  simp only [h.2, Bool.false_eq_true, if_false]
  rfl

/-! ### A call -/

theorem right_of_error {s : State} {ret : Int} (hret : ret ≠ 0) (hchannel : s.channel = none)
    (hfail : ¬((∀ w ∈ s.writes, w.2 = true) ∧ s.reports.getLast? = some 0)) :
    Right hw channel s ret where
  result := iff_of_false hret hfail
  channel := iff_of_false hret fun h => Option.some_ne_none _ (h.1.symm.trans hchannel)
  cleared h := absurd h hret

theorem not_right_of_report {s : State} {ret : UInt32} (hret : ret ≠ 0)
    (hlast : s.reports.getLast? = some ret) : ¬Right hw channel s 0 := fun h =>
  hret (Option.some.inj (hlast.symm.trans (h.result.mp rfl).2))

/-- The last write failed. -/
theorem right_of_write {s : State} {ps : List Pair} (hchannel : s.channel = none) :
    Right hw channel (s.wrote (ps, false)) 1 :=
  right_of_error Int.one_ne_zero hchannel fun h =>
    absurd (h.1 (ps, false) (List.mem_append_right _ (List.mem_singleton_self _)))
      Bool.false_ne_true

/-- The state at a report. -/
def State.reported (s : State) (steps : List Step) (ret : UInt32) : State :=
  { s with
    channel := none
    writes := s.writes ++ steps.map fun p => (p.pairs, p.complete)
    reports := s.reports ++ [ret] }

/-- The failures so far are forgotten. -/
def State.cleared (s : State) : State := { s with chanFail := 0 }

/-- A report of failure is counted. -/
def State.failed (s : State) : State :=
  { s with chanFail := s.chanFail + 1, totalChanFail := s.totalChanFail + 1 }

variable {calls : Nat → Call} {type : ChannelType} {rfi : RfInitMode} {n k : Nat}

theorem setChannel_of_failure {s : State} {p : Step}
    (h : firstFailure (setChannelSteps hw (calls k) channel type.toCarl rfi s) = some p) :
    ∃ ws, ∀ n, setChannel hw channel calls type (n + 1) k rfi s =
      some ({ s with channel := none, writes := s.writes ++ ws }, p.ret) := by
  rcases runSteps_spec (setChannelSteps hw (calls k) channel type.toCarl rfi s)
    { s with channel := none } with ⟨hnone, -⟩ | ⟨q, ws, hfirst, hrun⟩
  · exact absurd (h.symm.trans hnone) nofun
  · obtain rfl := Option.some.inj (hfirst.symm.trans h)
    refine ⟨ws, fun n => ?_⟩
    rw [setChannel]
    simp only [hrun]

theorem setChannel_of_none {s : State}
    (h : firstFailure (setChannelSteps hw (calls k) channel type.toCarl rfi s) = none) :
    setChannel hw channel calls type (n + 1) k rfi s =
      let t := s.reported (setChannelSteps hw (calls k) channel type.toCarl rfi s) (calls k).ret
      if (calls k).ret ≠ 0 then
        if rfi = .cold ∨ 3 < s.chanFail + 1 then some (t.failed, 0)
        else (setChannel hw channel calls type n (k + 1) .cold t.failed).map fun r =>
          if r.2 ≠ 0 then r else finish hw (calls k) channel r.1
      else
        some (finish hw (calls k) channel t.cleared) := by
  rcases runSteps_spec (setChannelSteps hw (calls k) channel type.toCarl rfi s)
    { s with channel := none } with ⟨-, hrun⟩ | ⟨q, ws, hfirst, -⟩
  · rw [setChannel]
    simp only [hrun]
    rfl
  · exact absurd (h.symm.trans hfirst) nofun

/-! ### The second call -/

/-- The result of the first call when the second one gave `r`. -/
def resume (hw : Hw) (o : Call) (channel : Channel) (r : State × Int) : State × Int :=
  if r.2 ≠ 0 then r else finish hw o channel r.1

/-- The second call ends without an error, though it did not go well. -/
theorem right_resume_iff {t : State} {ret : UInt32} (hret : ret ≠ 0) (hchannel : t.channel = none)
    (hlast : t.reports.getLast? = some ret) :
    Right hw channel (resume hw (calls 0) channel (t, 0)).1
        (resume hw (calls 0) channel (t, 0)).2 ↔ ¬Clips hw (calls 0) := by
  have hresume : resume hw (calls 0) channel (t, 0) = finish hw (calls 0) channel t :=
    if_neg fun h => h rfl
  rw [hresume]
  by_cases hclips : Clips hw (calls 0)
  · obtain ⟨ws, -, hfinish⟩ := finish_of_clips hclips channel t
    rw [hfinish]
    exact iff_of_false (not_right_of_report hret hlast) (not_not.mpr hclips)
  · obtain ⟨ps, hfinish⟩ := finish_of_not_clips hclips channel t
    rw [hfinish]
    exact iff_of_true (right_of_write hchannel) hclips

theorem forall_mem_writes {steps : List Step} :
    (∀ w ∈ steps.map fun p => (p.pairs, p.complete), w.2 = true) ↔
      ∀ p ∈ steps, p.complete = true := by
  rw [List.forall_mem_map]

/-- A switch goes well if its writes did. -/
theorem right_switched_iff {s : State} {ws : List (List Pair × Bool)}
    (hws : ∀ w ∈ ws, w.2 = true) (hlast : s.reports.getLast? = some 0) :
    Right hw channel (s.switched hw channel ws) 0 ↔ ∀ w ∈ s.writes, w.2 = true := by
  have hall : (∀ w ∈ (s.switched hw channel ws).writes, w.2 = true) ↔
      ∀ w ∈ s.writes, w.2 = true :=
    List.forall_mem_append.trans (and_iff_left hws)
  rw [← hall]
  constructor
  · intro h
    exact (h.result.mp rfl).1
  · intro hwrites
    exact ⟨iff_of_true rfl ⟨hwrites, hlast⟩, iff_of_true rfl ⟨rfl, rfl⟩, nofun⟩

/-- The second call goes well, up to its last write. -/
theorem right_resume_success {t : State} {first retry : List Step}
    (hwrites : t.writes = first.map fun p => (p.pairs, p.complete)) :
    Right hw channel
        (resume hw (calls 0) channel
          (finish hw (calls 1) channel (t.reported retry 0).cleared)).1
        (resume hw (calls 0) channel
          (finish hw (calls 1) channel (t.reported retry 0).cleared)).2 ↔
      (Clips hw (calls 1) →
        Clips hw (calls 0) ∧ ∀ p ∈ first ++ retry, p.complete = true) := by
  by_cases hclips : Clips hw (calls 1)
  · obtain ⟨ws, hws, hfinish⟩ := finish_of_clips hclips channel (t.reported retry 0).cleared
    rw [hfinish, imp_iff_right hclips]
    generalize hu : (t.reported retry 0).cleared.switched hw channel ws = u
    have hlast : u.reports.getLast? = some 0 := by
      subst hu
      exact List.getLast?_concat
    have hall : (∀ w ∈ u.writes, w.2 = true) ↔ ∀ p ∈ first ++ retry, p.complete = true := by
      subst hu
      simp only [State.switched, State.cleared, State.reported, hwrites, List.forall_mem_append,
        forall_mem_writes]
      exact and_iff_left hws
    have hresume : resume hw (calls 0) channel (u, 0) = finish hw (calls 0) channel u :=
      if_neg fun h => h rfl
    rw [hresume]
    by_cases hclips' : Clips hw (calls 0)
    · obtain ⟨ws', hws', hfinish'⟩ := finish_of_clips hclips' channel u
      rw [hfinish', and_iff_right hclips', ← hall]
      exact right_switched_iff hws' hlast
    · obtain ⟨ps, hfinish'⟩ := finish_of_not_clips hclips' channel u
      rw [hfinish']
      refine iff_of_false (fun h => ?_) fun h => hclips' h.1
      subst hu
      exact absurd (h.channel.mpr ⟨rfl, rfl⟩) Int.one_ne_zero
  · obtain ⟨ps, hfinish⟩ := finish_of_not_clips hclips channel (t.reported retry 0).cleared
    rw [hfinish]
    exact iff_of_true (right_of_write rfl) fun h => absurd h hclips

theorem right_retry_iff (hw : Hw) (channel : Channel) (calls : Nat → Call) (type : ChannelType)
    (first : List Step) {t : State} {ret : UInt32} (hret : ret ≠ 0)
    (hreports : t.reports = [ret])
    (hwrites : t.writes = first.map fun p => (p.pairs, p.complete)) :
    ∃ r, setChannel hw channel calls type (n + 1) 1 .cold t = some r ∧
      (Right hw channel (resume hw (calls 0) channel r).1 (resume hw (calls 0) channel r).2 ↔
        RetryHolds hw calls type.toCarl first
          (setChannelSteps hw (calls 1) channel type.toCarl .cold t)) := by
  have hlast : t.reports.getLast? = some ret := by rw [hreports]; rfl
  cases hfirst : firstFailure (setChannelSteps hw (calls 1) channel type.toCarl .cold t) with
  | some p =>
      obtain ⟨ws, hcall⟩ := setChannel_of_failure hfirst
      refine ⟨_, hcall n, ?_⟩
      by_cases hzero : p.ret = 0
      · have hturbo := (ret_eq_zero_iff hfirst).mp hzero
        have hnone : ({ t with channel := none, writes := t.writes ++ ws } : State).channel = none :=
          rfl
        rw [hzero, right_resume_iff hret hnone hlast]
        constructor
        · intro hclips
          exact ⟨fun _ => hclips, fun hnone => absurd (hfirst.symm.trans hnone) nofun,
            fun hnone => absurd (hfirst.symm.trans hnone) nofun⟩
        · intro h
          exact h.turbo (hfirst.trans (congrArg some hturbo))
      · have hresume : resume hw (calls 0) channel
            ({ t with channel := none, writes := t.writes ++ ws }, p.ret) =
              ({ t with channel := none, writes := t.writes ++ ws }, p.ret) := if_pos hzero
        rw [hresume]
        refine iff_of_true (right_of_error hzero rfl fun h => ?_) ⟨fun hturbo => ?_, ?_, ?_⟩
        · exact hret (Option.some.inj (hlast.symm.trans h.2))
        · obtain rfl := Option.some.inj (hfirst.symm.trans hturbo)
          exact absurd rfl hzero
        · exact fun hnone => absurd (hfirst.symm.trans hnone) nofun
        · exact fun hnone => absurd (hfirst.symm.trans hnone) nofun
  | none =>
      have hcall := setChannel_of_none (n := n) hfirst
      by_cases hreport : (calls 1).ret = 0
      · rw [if_neg (not_not.mpr hreport), hreport] at hcall
        refine ⟨_, hcall, (right_resume_success hwrites).trans ?_⟩
        constructor
        · intro h
          exact ⟨fun hturbo => absurd (hfirst.symm.trans hturbo) nofun,
            fun _ hne => absurd hreport hne, fun _ _ => h⟩
        · intro h
          exact h.success hfirst hreport
      · rw [if_pos hreport, if_pos (.inl rfl)] at hcall
        refine ⟨_, hcall, ?_⟩
        have hlast' : (t.reported (setChannelSteps hw (calls 1) channel type.toCarl .cold t)
            (calls 1).ret).failed.reports.getLast? = some (calls 1).ret := List.getLast?_concat
        rw [right_resume_iff hreport rfl hlast']
        constructor
        · intro hclips
          exact ⟨fun hturbo => absurd (hfirst.symm.trans hturbo) nofun, fun _ _ => hclips,
            fun _ hzero => absurd hzero hreport⟩
        · intro h
          exact h.report hfirst hreport

/-! ### The switch as a whole -/

theorem setChannel_unique {s : State} {m : Nat} {r r' : State × Int}
    (h : setChannel hw channel calls type n k rfi s = some r)
    (h' : setChannel hw channel calls type m k rfi s = some r') : r = r' := by
  induction n generalizing m k rfi s r r' with
  | zero => cases h
  | succ n ih =>
      cases m with
      | zero => cases h'
      | succ m =>
          cases hfirst : firstFailure
              (setChannelSteps hw (calls k) channel type.toCarl rfi s) with
          | some p =>
              obtain ⟨ws, hcall⟩ := setChannel_of_failure hfirst
              exact Option.some.inj ((h.symm.trans (hcall n)).trans ((hcall m).symm.trans h'))
          | none =>
              rw [setChannel_of_none hfirst] at h h'
              simp only at h h'
              split_ifs at h h' with hreport hend
              · exact Option.some.inj (h.symm.trans h')
              · obtain ⟨q, hq, rfl⟩ := Option.map_eq_some_iff.mp h
                obtain ⟨q', hq', rfl⟩ := Option.map_eq_some_iff.mp h'
                rw [ih hq hq']
              · exact Option.some.inj (h.symm.trans h')

/-- The first call goes well, up to its last write. -/
theorem right_finish_iff {s : State} {steps : List Step} (hwrites : s.writes = []) :
    Right hw channel (finish hw o channel (s.reported steps 0).cleared).1
        (finish hw o channel (s.reported steps 0).cleared).2 ↔
      (Clips hw o → ∀ p ∈ steps, p.complete = true) := by
  by_cases hclips : Clips hw o
  · obtain ⟨ws, hws, hfinish⟩ := finish_of_clips hclips channel (s.reported steps 0).cleared
    rw [hfinish, imp_iff_right hclips, ← forall_mem_writes]
    refine (right_switched_iff hws List.getLast?_concat).trans ?_
    simp only [State.cleared, State.reported, hwrites, List.nil_append]
  · obtain ⟨ps, hfinish⟩ := finish_of_not_clips hclips channel (s.reported steps 0).cleared
    rw [hfinish]
    exact iff_of_true (right_of_write rfl) fun h => absurd h hclips

/-- The switch ends after two calls at most. -/
theorem exists_setChannel (hw : Hw) (channel : Channel) (calls : Nat → Call) (type : ChannelType)
    (rfi : RfInitMode) (s : State) (hwrites : s.writes = []) (hreports : s.reports = []) :
    ∃ r, setChannel hw channel calls type 2 0 rfi s = some r ∧
      (Right hw channel r.1 r.2 ↔ Holds hw channel calls type rfi s) := by
  cases hfirst : firstFailure (setChannelSteps hw (calls 0) channel type.toCarl rfi s) with
  | some p =>
      obtain ⟨ws, hcall⟩ := setChannel_of_failure hfirst
      refine ⟨_, hcall 1, ?_⟩
      by_cases hzero : p.ret = 0
      · have hturbo := (ret_eq_zero_iff hfirst).mp hzero
        refine iff_of_false (fun h => h.cleared hzero rfl) fun h => ?_
        exact h.turbo (hfirst.trans (congrArg some hturbo))
      · refine iff_of_true (right_of_error hzero rfl fun h => ?_) ⟨fun hturbo => ?_, ?_, ?_⟩
        · rw [hreports] at h
          exact absurd h.2 nofun
        · obtain rfl := Option.some.inj (hfirst.symm.trans hturbo)
          exact absurd rfl hzero
        · exact fun hnone => absurd (hfirst.symm.trans hnone) nofun
        · exact fun hnone => absurd (hfirst.symm.trans hnone) nofun
  | none =>
      have hturbo : firstFailure (setChannelSteps hw (calls 0) channel type.toCarl rfi s) ≠
          some (turboFailed hw (calls 0) type.toCarl) := fun h =>
        absurd (hfirst.symm.trans h) nofun
      have hcall := setChannel_of_none (n := 1) hfirst
      by_cases hreport : (calls 0).ret = 0
      · simp only [hreport, ne_eq, not_true_eq_false, if_false] at hcall
        refine ⟨_, hcall, (right_finish_iff hwrites).trans ?_⟩
        constructor
        · intro h
          exact ⟨hturbo, fun _ _ => h, fun _ hne => absurd hreport hne⟩
        · intro h
          exact h.success hfirst hreport
      · simp only [ne_eq, hreport, not_false_eq_true, if_true] at hcall
        by_cases hend : rfi = .cold ∨ 3 < s.chanFail + 1
        · rw [if_pos hend] at hcall
          refine ⟨_, hcall, iff_of_false (fun h => h.cleared rfl rfl) fun h => ?_⟩
          obtain ⟨hcold, hfew, -⟩ := h.retry hfirst hreport
          exact hend.elim hcold hfew
        · rw [if_neg hend] at hcall
          generalize hsteps : setChannelSteps hw (calls 0) channel type.toCarl rfi s = steps at *
          have hone : (s.reported steps (calls 0).ret).failed.reports = [(calls 0).ret] := by
            simp only [State.failed, State.reported, hreports, List.nil_append]
          have hall : (s.reported steps (calls 0).ret).failed.writes =
              steps.map fun p => (p.pairs, p.complete) := by
            simp only [State.failed, State.reported, hwrites, List.nil_append]
          obtain ⟨r, hretry, hright⟩ :=
            right_retry_iff hw channel calls type steps (n := 0) hreport hone hall
          rw [hretry] at hcall
          refine ⟨_, hcall, hright.trans ?_⟩
          rw [not_or] at hend
          subst hsteps
          constructor
          · intro h
            exact ⟨hturbo, fun _ hzero => absurd hzero hreport, fun _ _ => ⟨hend.1, hend.2, h⟩⟩
          · intro h
            exact (h.retry hfirst hreport).2.2

/-- A device with 5 GHz, and the bank that is written for channel 6; the run below comes to no other
batch. -/
def channelSix : Hw where
  confType := .noHt
  bands5GHz := true
  hwCounters := true
  txMask := 1
  calFreqPier2G := [112, 137, 172, 0xff]
  calFreqPier5G := []
  heavyClip := 0
  initPhy := []
  initPhyFromEeprom := []
  initPowerCal := []
  initRfBanks := []
  initRfBank4 := [(0x1c58b0, 0x69), (0x1c58e8, 0x21)]
  setFreqCalData := []
  setMacTpc := []

/-- All goes well but the write of `AR9170_PHY_REG_TURBO`. -/
def turboOnly : Call :=
  let o : Outcomes := ⟨fun _ => true, fun _ => true, fun _ => true⟩
  ⟨true, true, o, o, o, true, o, true, true, o, false, o, o, true, 0, true⟩

end Calipso.Ar9170.Phy
