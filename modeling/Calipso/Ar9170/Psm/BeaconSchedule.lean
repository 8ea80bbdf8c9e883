import Calipso.Ar9170.Psm.Actions
import Calipso.Ar9170.Psm.Clock

/-!
# The schedule of a beacon interval

PRE-TBTT, the start of the ATIM window, its end and the next PRE-TBTT are due in
this order as long as every ATIM window that is installed is longer than the offset
and ends before the beacon period does. Then the station is back in the TX window
(or sends soft beacons) whenever the device raises PRE-TBTT.

An ATIM window of the offset or less ends at a time that has passed when it is
computed; the timer waits for it forever and the station stays in its ATIM window.
-/

namespace Calipso.Ar9170

open Interrupt

variable {cf : Conf} {tu : Nat} {f : State → State} {s s' : State} {c c' : Clock}

/-! ### What changes the window -/

/-- The window the station is in, and the callback that is set. -/
def State.phase (s : State) : OpState × Option TimerCallback := (s.psmState, s.timer)

theorem State.psmState_of_phase {o : OpState} {timer : Option TimerCallback}
    (h : s.phase = (o, timer)) : s.psmState = o :=
  congrArg Prod.fst h

theorem State.timer_of_phase {o : OpState} {timer : Option TimerCallback}
    (h : s.phase = (o, timer)) : s.timer = timer :=
  congrArg Prod.snd h

theorem EraseAction.phase (h : EraseAction f) (s : State) : (f s).phase = s.phase := by
  cases h with
  | skipErase => unfold Ar9170.skipErase; split <;> rfl
  | eraseIfEmpty => unfold Ar9170.eraseIfEmpty; split <;> rfl
  | _ => rfl

theorem PowerAction.phase (h : PowerAction f) (s : State) : (f s).phase = s.phase := by
  cases h with
  | command h => cases h <;> rfl
  | fallAsleep => rfl

theorem CreateAction.phase (h : CreateAction cf f) (s : State) : (f s).phase = s.phase := by
  cases h with
  | addAtim => rw [addAtim_eq]; rfl
  | addData => rw [addData_eq]; rfl
  | _ => rfl

theorem PickAction.phase (h : PickAction f) (s : State) : (f s).phase = s.phase := by
  cases h with
  | markSelected => unfold Ar9170.markSelected; split <;> rfl
  | takeOut => unfold Ar9170.takeOut; split <;> rfl
  | _ => rfl

theorem SendAction.phase (h : SendAction f) (s : State) : (f s).phase = s.phase := by
  cases h with
  | submit h =>
      cases h with
      | sendData => unfold Ar9170.sendData; split <;> rfl
      | allocBeaconBuffer => unfold Ar9170.allocBeaconBuffer; split <;> rfl
      | _ => rfl
  | setQueue kind => cases kind <;> rfl

theorem TxAction.phase (h : TxAction f) (s : State) : (f s).phase = s.phase := by
  cases h with
  | mgmt h =>
      cases h with
      | pick h => exact h.phase s
      | send h => exact h.phase s
      | _ => rfl
  | _ => rfl

theorem RxAction.phase (h : RxAction cf f) (s : State) : (f s).phase = s.phase := by
  cases h with
  | create h => exact h.phase s
  | _ => rfl

/-- No code of the main loop leaves the window or touches the timer. -/
theorem CodeAction.phase (h : CodeAction cf f) (s : State) : (f s).phase = s.phase := by
  cases h with
  | erase h => exact h.phase s
  | power h => exact h.phase s
  | create h => exact h.phase s
  | tx h => exact h.phase s
  | rx h => exact h.phase s

theorem phase_settle (s : State) : s.settle.phase = s.phase := by
  rw [settle_eq]
  rfl

theorem phase_txProcessStatus (st : TxStatus) (s : State) :
    (txProcessStatus cf st s).phase = s.phase := by
  unfold txProcessStatus txStatus
  split
  · rfl
  · split
    · split
      · rw [phase_settle, handleATIMStatusRsp, creditLastAtim_eq]
        rfl
      · rfl
    · rw [phase_settle]
      rfl

/-- The interrupts that move the station from window to window. -/
def Irq.isTiming : Irq → Bool
  | .preTbtt _ => true
  | .timer => true
  | _ => false

theorem phase_irq {i : Irq} (hi : i.isTiming = false) (h : irq cf i s = some s') :
    s'.phase = s.phase := by
  cases i with
  | preTbtt => simp [Irq.isTiming] at hi
  | timer => simp [Irq.isTiming] at hi
  | txStatus st =>
      obtain ⟨-, rfl⟩ := irq_txStatus_eq_some h
      exact phase_txProcessStatus st s
  | txComp =>
      cases h
      unfold txCompUnlock
      split <;> rfl
  | bulkOutDone => cases h; rfl
  | beaconConfig =>
      cases h
      unfold rspBeaconConfig
      split <;> rfl
  | rxAtim mgmt ok =>
      cases h
      unfold scheduleHandleMpdu
      split <;> rfl
  | rxOther ok =>
      cases h
      unfold scheduleHandleMpdu
      split <;> rfl
  | env e => cases h; rfl

theorem phase_clearWaitFlags (s : State) : (clearWaitFlags s).phase = s.phase := by
  unfold clearWaitFlags
  rw [phase_settle]
  rfl

/-- A station in power-save mode starts its beacon interval; any other one stays in
the window it is in. -/
theorem phase_rspPreTbtt (cf : Conf) (rfOn : Bool) (s : State) :
    (rspPreTbtt cf rfOn s).phase =
      if cf.vifType = .adhoc ∧ cf.confPs then (.preTbtt, some .atimWindowStart) else s.phase := by
  unfold rspPreTbtt
  cases cf.vifType with
  | station =>
      simp only [reduceCtorEq, false_and, if_false]
      unfold handlePs
      split
      · rfl
      · split
        · rfl
        · split <;> rfl
  | ap => rfl
  | adhoc =>
      rw [phase_clearWaitFlags]
      simp only [true_and]
      split <;> rfl

theorem phase_psUpdate (s : State) : (psUpdate cf s).phase = s.phase := by
  rcases psUpdate_cases cf s with h | ⟨-, h⟩ | ⟨-, h⟩
  · rw [h]
  · rw [h]
    rfl
  · rw [h]
    rfl

/-- What a callback does. -/
def TimerCallback.run (cf : Conf) (s : State) : TimerCallback → State
  | .atimWindowStart => psmAtimWindowStart s
  | .atimWindowEnd => psmAtimWindowEnd cf s
  | .softBeaconTx => psmSoftBeaconTx s

theorem timerFires_eq_some {callback : TimerCallback} (h : s.timer = some callback)
    (hfires : timerFires cf s = some s') : s' = callback.run cf { s with timer := none } := by
  rw [timerFires, h, Option.map_some, Option.some.injEq] at hfires
  cases callback with
  | atimWindowStart => exact hfires.symm
  | atimWindowEnd => exact hfires.symm
  | softBeaconTx => exact hfires.symm

theorem phase_atimWindowStart (h : s.phase = (.preTbtt, some .atimWindowStart))
    (hfires : timerFires cf s = some s') : s'.phase = (.atimWindow, some .atimWindowEnd) := by
  rw [timerFires_eq_some (State.timer_of_phase h) hfires]
  simp [TimerCallback.run, psmAtimWindowStart, State.phase, State.psmState_of_phase h]

theorem phase_atimWindowEnd (h : s.phase = (.atimWindow, some .atimWindowEnd))
    (hfires : timerFires cf s = some s') :
    s'.phase = (.txWindow, none) ∨
      cf.withSoftBeacon ∧ s'.phase = (.softBcnWindow, some .softBeaconTx) := by
  rw [timerFires_eq_some (State.timer_of_phase h) hfires, TimerCallback.run, psmAtimWindowEnd]
  split
  next hsoft => exact .inr ⟨hsoft.1, rfl⟩
  next =>
    rw [phase_psUpdate]
    exact .inl rfl

theorem phase_softBeaconTx (h : s.phase = (.softBcnWindow, some .softBeaconTx))
    (hfires : timerFires cf s = some s') : s'.phase = (.softBcnWindow, some .softBeaconTx) := by
  rw [timerFires_eq_some (State.timer_of_phase h) hfires]
  simp [TimerCallback.run, psmSoftBeaconTx, State.phase, State.psmState_of_phase h]

/-! ### The clock -/

namespace Clock

/-- A short wait is armed at once. -/
theorem archSchedule_of_lt {w : Int} (hlo : 0 ≤ w) (hhi : w < 2 ^ 32) :
    archSchedule (c.now + w) c = { c with compare := some (c.now + w) } := by
  have hsub : c.now + w - c.now = w := by omega
  have h64 : w % 2 ^ 64 = w := Int.emod_eq_of_lt hlo (by omega)
  have h32 : w % 2 ^ 32 = w := Int.emod_eq_of_lt hlo hhi
  rw [archSchedule, hsub, h64, h32, if_pos (by omega)]

/-- A callback that is set while no timer is. -/
theorem rtimerSet_of_lt {w : Int} (hlo : 0 ≤ w) (hhi : w < 2 ^ 32) :
    rtimerSet none (c.now + w) c =
      { c with time := c.now + w, compare := some (c.now + w) } := by
  rw [rtimerSet, if_pos rfl]
  exact archSchedule_of_lt (c := { c with time := c.now + w }) hlo hhi

/-- Only the time and the compare interrupt change. -/
theorem rtimerSet_eq (pending : Option TimerCallback) (t : Int) (c : Clock) :
    rtimerSet pending t c =
      { c with time := t, compare := (rtimerSet pending t c).compare } := by
  unfold rtimerSet archSchedule
  split
  · split <;> rfl
  · rfl

theorem rtimerSet_of_pending (callback : TimerCallback) (t : Int) :
    rtimerSet (some callback) t c = { c with time := t } := by
  simp [rtimerSet]

theorem delay_atimWindowStart : c.delay .atimWindowStart = 168000 := rfl

theorem delay_atimWindowEnd : c.delay .atimWindowEnd = 10500 * ((c.atimWindow.toNat : Int) - 8) :=
  rfl

theorem delay_softBeaconTx : c.delay .softBeaconTx = 10500 * (c.softBeaconInt.toNat : Int) := rfl

end Clock

/-- An interval below 15 leaves the period of the device as it is. -/
def programmed (period beaconInt : Nat) : Nat :=
  if beaconInt = 0 ∨ 15 ≤ beaconInt then beaconInt else period

namespace Clock

theorem setVal_low (value newvalue : BitVec 32) :
    setVal 0x0000ffff 0 value newvalue &&& 0x0000ffff = newvalue &&& 0x0000ffff := by
  ext i hi
  simp only [setVal, BitVec.shiftLeft_zero, BitVec.getElem_and, BitVec.getElem_or,
    BitVec.getElem_not]
  cases (0x0000ffff : BitVec 32)[i] <;> simp

theorem period_writeBeaconRegs (h : c.globalBeaconInt.toNat < 2 ^ 16) :
    (writeBeaconRegs c).period = c.globalBeaconInt.toNat := by
  have hmask : (0x0000ffff : BitVec 32).toNat = 2 ^ 16 - 1 := by decide
  rw [period, writeBeaconRegs, setVal_low, BitVec.toNat_and, hmask,
    Nat.and_two_pow_sub_one_eq_mod, Nat.mod_eq_of_lt h]

theorem toNat_beaconInt (x : UInt16) : (BitVec.ofNat 32 x.toNat).toNat = x.toNat := by
  have hx := x.toNat_lt
  rw [BitVec.toNat_ofNat, Nat.mod_eq_of_lt (by omega)]

theorem period_setBeaconTimers :
    (setBeaconTimers c).period = programmed c.period c.beaconInt.toNat := by
  have hx := c.beaconInt.toNat_lt
  have hnat := toNat_beaconInt c.beaconInt
  have hzero : BitVec.ofNat 32 c.beaconInt.toNat = 0 ↔ c.beaconInt.toNat = 0 := by
    rw [← BitVec.toNat_inj, hnat]
    rfl
  have hsmall : BitVec.ofNat 32 c.beaconInt.toNat < 15 ↔ c.beaconInt.toNat < 15 := by
    rw [BitVec.lt_def, hnat]
    rfl
  simp only [setBeaconTimers, programmed, ne_eq, hzero, hsmall]
  by_cases h0 : c.beaconInt.toNat = 0
  · simp only [h0, not_true_eq_false, if_false, true_or, if_true]
    rw [period_writeBeaconRegs (by simp)]
    simp
  · by_cases h15 : c.beaconInt.toNat < 15
    · rw [if_pos h0, if_pos h15, if_neg (by omega)]
      rfl
    · rw [if_pos h0, if_neg h15, if_pos (by omega)]
      rw [period_writeBeaconRegs (by simp only [hnat]; omega)]
      exact hnat

/-- Only the two global values and the registers change. -/
theorem setBeaconTimers_eq (c : Clock) :
    setBeaconTimers c = { c with
      globalBeaconInt := (setBeaconTimers c).globalBeaconInt
      globalPretbtt := (setBeaconTimers c).globalPretbtt
      regs := (setBeaconTimers c).regs } := by
  simp only [setBeaconTimers]
  split
  · split <;> rfl
  · rfl

/-- The PRE-TBTT offset is subtracted only from an interval that is longer. -/
theorem globalPretbtt_setBeaconTimers (c : Clock) :
    (setBeaconTimers c).globalPretbtt = c.globalPretbtt ∨
      (setBeaconTimers c).globalPretbtt = 0 ∨
      (setBeaconTimers c).globalPretbtt.toNat + pretbttKus = c.beaconInt.toNat := by
  have hnat := toNat_beaconInt c.beaconInt
  have hx := c.beaconInt.toNat_lt
  simp only [setBeaconTimers]
  split
  · split
    · exact .inl rfl
    next h15 =>
      right
      right
      rw [BitVec.lt_def, hnat] at h15
      have h8 : (8#32).toNat = 8 := by decide
      have hle : 15 ≤ c.beaconInt.toNat := not_lt.mp h15
      simp only [writeBeaconRegs, pretbttKus, BitVec.toNat_sub, hnat, h8]
      omega
  · exact .inr (.inl rfl)

end Clock

/-! ### Values that fit -/

/-- The ticks from PRE-TBTT to the start of the ATIM window, at most: when soft
beacons are sent the start waits for the one that is due next. -/
def startDelay (cf : Conf) (softBeaconInt : Nat) : Int :=
  if cf.withSoftBeacon then
    max (rtimerMillisecond * (pretbttKus + atimWindowOffsetKus)) (rtimerMillisecond * softBeaconInt)
  else rtimerMillisecond * (pretbttKus + atimWindowOffsetKus)

/-- The ATIM window is longer than the offset and ends before the beacon period. -/
def Fits (cf : Conf) (tu period atimWindow softBeaconInt : Nat) : Prop :=
  atimWindowOffsetKus < atimWindow ∧
    startDelay cf softBeaconInt + rtimerMillisecond * (atimWindow - atimWindowOffsetKus) <
      tu * period

instance (cf : Conf) (tu period atimWindow softBeaconInt : Nat) :
    Decidable (Fits cf tu period atimWindow softBeaconInt) :=
  inferInstanceAs (Decidable (_ ∧ _))

/-- The values of the clock fit. -/
def Clock.Fitting (cf : Conf) (tu : Nat) (c : Clock) : Prop :=
  Fits cf tu c.period c.atimWindow.toNat c.softBeaconInt.toNat

/-- Where the station is in its beacon interval, and when its timer strikes. -/
inductive OnSchedule (cf : Conf) (tu : Nat) (s : State) (c : Clock) : Prop
  | idle (phase : s.phase = (.txWindow, none)) (compare : c.compare = none)
  | start (u : Int) (phase : s.phase = (.preTbtt, some .atimWindowStart))
      (compare : c.compare = some u) (due : c.now ≤ u) (later : c.preTbtt < u)
      (soon : u ≤ c.preTbtt + startDelay cf c.softBeaconInt.toNat)
  | stop (u : Int) (phase : s.phase = (.atimWindow, some .atimWindowEnd))
      (compare : c.compare = some u) (due : c.now ≤ u) (soon : u < c.next tu)
  | soft (u : Int) (phase : s.phase = (.softBcnWindow, some .softBeaconTx))
      (built : cf.withSoftBeacon) (compare : c.compare = some u) (due : c.now ≤ u)
      (soon : u ≤ c.now + rtimerMillisecond * c.softBeaconInt.toNat)

/-- What every step of the timed machine keeps. -/
structure Timed.Inv (cf : Conf) (tu : Nat) (t : Timed) : Prop where
  acts : Acts (CodeAction cf) t.config.rest
  fitting : t.clock.Fitting cf tu
  onSchedule : OnSchedule cf tu t.config.state t.clock

/-! ### The steps of the timed machine -/

theorem OnSchedule.of_phase (h : OnSchedule cf tu s c) (hphase : s'.phase = s.phase) :
    OnSchedule cf tu s' c := by
  cases h with
  | idle phase compare => exact .idle (hphase.trans phase) compare
  | start u phase compare due later soon =>
      exact .start u (hphase.trans phase) compare due later soon
  | stop u phase compare due soon => exact .stop u (hphase.trans phase) compare due soon
  | soft u phase built compare due soon =>
      exact .soft u (hphase.trans phase) built compare due soon

/-- Time passes up to the next interrupt. -/
theorem OnSchedule.wait {t : Int} (h : OnSchedule cf tu s c) (ht : c.mayWait tu t) :
    OnSchedule cf tu s { c with now := t } := by
  obtain ⟨hnow, -, hcompare⟩ := ht
  cases h with
  | idle phase compare => exact .idle phase compare
  | start u phase compare _ later soon =>
      exact .start u phase compare (hcompare u compare) later soon
  | stop u phase compare _ soon => exact .stop u phase compare (hcompare u compare) soon
  | soft u phase built compare _ soon =>
      refine .soft u phase built compare (hcompare u compare) ?_
      simp only
      omega

theorem delay_atimWindowEnd_pos (h : c.Fitting cf tu) : 0 < c.delay .atimWindowEnd := by
  have hlong : atimWindowOffsetKus < c.atimWindow.toNat := h.1
  rw [Clock.delay_atimWindowEnd]
  simp only [atimWindowOffsetKus] at hlong
  omega

/-- The ATIM window ends before the next PRE-TBTT. -/
theorem atimWindowEnd_lt_next (h : c.Fitting cf tu)
    (hnow : c.now ≤ c.preTbtt + startDelay cf c.softBeaconInt.toNat) :
    c.now + c.delay .atimWindowEnd < c.next tu := by
  have hfits : startDelay cf c.softBeaconInt.toNat + c.delay .atimWindowEnd < tu * c.period := h.2
  rw [Clock.next]
  omega

/-- Without soft beacons, an ATIM window that starts on time ends in time exactly when
the values fit. -/
theorem atimWindow_inOrder_iff (hbuild : cf.withSoftBeacon = false)
    (hnow : c.now = c.preTbtt + c.delay .atimWindowStart) :
    c.now < c.now + c.delay .atimWindowEnd ∧ c.now + c.delay .atimWindowEnd < c.next tu ↔
      c.Fitting cf tu := by
  have hstart : startDelay cf c.softBeaconInt.toNat = 168000 := by
    rw [startDelay, hbuild]
    rfl
  constructor
  · rintro ⟨hpos, hend⟩
    rw [Clock.delay_atimWindowEnd] at hpos
    rw [Clock.next, hnow, Clock.delay_atimWindowStart] at hend
    refine ⟨?_, ?_⟩
    · simp only [atimWindowOffsetKus]
      omega
    · have hwindow : rtimerMillisecond * (c.atimWindow.toNat - atimWindowOffsetKus) =
          c.delay .atimWindowEnd := rfl
      rw [hstart, hwindow]
      omega
  · intro h
    have hpos := delay_atimWindowEnd_pos h
    have hsoon : c.now ≤ c.preTbtt + startDelay cf c.softBeaconInt.toNat := by
      rw [hnow, hstart, Clock.delay_atimWindowStart]
    exact ⟨by omega, atimWindowEnd_lt_next h hsoon⟩

/-- PRE-TBTT finds the station in the TX window, or between soft beacons. -/
theorem OnSchedule.txWindow_of_due (h : OnSchedule cf tu s c) (hfit : c.Fitting cf tu)
    (hdue : c.next tu ≤ c.now) :
    (s.phase = (.txWindow, none) ∧ c.compare = none) ∨
      (s.phase = (.softBcnWindow, some .softBeaconTx) ∧ cf.withSoftBeacon ∧
        ∃ u, c.compare = some u ∧ c.now ≤ u ∧
          u ≤ c.now + rtimerMillisecond * c.softBeaconInt.toNat) := by
  cases h with
  | idle phase compare => exact .inl ⟨phase, compare⟩
  | start u _ _ due _ soon =>
      have hpos := delay_atimWindowEnd_pos hfit
      have hlt := atimWindowEnd_lt_next hfit (due.trans soon)
      omega
  | stop u _ _ due soon => omega
  | soft u phase built compare due soon => exact .inr ⟨phase, built, u, compare, due, soon⟩

theorem startDelay_ge (cf : Conf) (softBeaconInt : Nat) : 168000 ≤ startDelay cf softBeaconInt := by
  unfold startDelay
  split
  · exact le_max_left _ _
  · exact le_rfl

theorem softBeacon_le_startDelay (h : cf.withSoftBeacon) (softBeaconInt : Nat) :
    rtimerMillisecond * softBeaconInt ≤ startDelay cf softBeaconInt := by
  rw [startDelay, if_pos h]
  exact le_max_right _ _

/-- The device raises PRE-TBTT. A soft beacon that is due next keeps its time, and
the start of the ATIM window takes its place. -/
theorem OnSchedule.preTbtt (h : OnSchedule cf tu s c) (hfit : c.Fitting cf tu)
    (hdue : c.next tu ≤ c.now) (hquiet : c.compare ≠ some c.now) (rfOn : Bool) (s' : State) :
    OnSchedule cf tu (rspPreTbtt cf rfOn s) (c.after cf s s' (.irq (.preTbtt rfOn))) := by
  have hphase := phase_rspPreTbtt cf rfOn s
  have hstart := startDelay_ge cf c.softBeaconInt.toNat
  by_cases hps : cf.vifType = .adhoc ∧ cf.confPs
  · rw [if_pos hps] at hphase
    simp only [Clock.after, if_pos hps, Clock.delay_atimWindowStart]
    rcases h.txWindow_of_due hfit hdue with ⟨phase, compare⟩ | ⟨phase, built, u, compare, due, soon⟩
    · have htimer : s.timer = none := State.timer_of_phase phase
      rw [htimer, Clock.rtimerSet_of_lt (c := { c with preTbtt := c.now }) (by decide) (by decide)]
      refine .start (c.now + 168000) hphase rfl ?_ ?_ ?_
      · simp only
        omega
      · simp only
        omega
      · simp only
        omega
    · have htimer : s.timer = some .softBeaconTx := State.timer_of_phase phase
      have hsoft := softBeacon_le_startDelay built c.softBeaconInt.toNat
      have hlater : c.now < u := by
        apply lt_of_le_of_ne due
        intro heq
        exact hquiet (compare.trans (congrArg some heq.symm))
      rw [htimer, Clock.rtimerSet_of_pending]
      refine .start u hphase compare due hlater ?_
      simp only
      omega
  · rw [if_neg hps] at hphase
    simp only [Clock.after, if_neg hps]
    rcases h.txWindow_of_due hfit hdue with ⟨phase, compare⟩ | ⟨phase, built, u, compare, due, soon⟩
    · exact .idle (hphase.trans phase) compare
    · exact .soft u (hphase.trans phase) built compare due soon

/-- A soft beacon is due again. -/
theorem OnSchedule.softBeacon (hphase : s'.phase = (.softBcnWindow, some .softBeaconTx))
    (built : cf.withSoftBeacon) :
    OnSchedule cf tu s' (c.after cf s s' (.irq .timer)) := by
  have htimer : s'.timer = some .softBeaconTx := State.timer_of_phase hphase
  have hint := c.softBeaconInt.toNat_lt
  simp only [Clock.after, htimer, Clock.delay_softBeaconTx]
  rw [Clock.rtimerSet_of_lt (c := { c with compare := none }) (by omega) (by omega)]
  refine .soft (c.now + 10500 * c.softBeaconInt.toNat) hphase built rfl ?_ ?_
  · simp only
    omega
  · exact le_rfl

/-- The timer strikes. -/
theorem OnSchedule.timer (h : OnSchedule cf tu s c) (hfit : c.Fitting cf tu)
    (hdue : c.compare = some c.now) (hfires : timerFires cf s = some s') :
    OnSchedule cf tu s' (c.after cf s s' (.irq .timer)) := by
  cases h with
  | idle phase compare =>
      rw [compare] at hdue
      cases hdue
  | start u phase compare due later soon =>
      have hnow : c.now ≤ c.preTbtt + startDelay cf c.softBeaconInt.toNat := due.trans soon
      have hphase := phase_atimWindowStart phase hfires
      have htimer : s'.timer = some .atimWindowEnd := State.timer_of_phase hphase
      have hpos := delay_atimWindowEnd_pos hfit
      have hend := atimWindowEnd_lt_next hfit hnow
      have haw := c.atimWindow.toNat_lt
      simp only [Clock.after, htimer]
      rw [Clock.rtimerSet_of_lt (c := { c with compare := none }) hpos.le
        (by rw [Clock.delay_atimWindowEnd]; omega)]
      refine .stop (c.now + c.delay .atimWindowEnd) hphase rfl ?_ hend
      simp only
      omega
  | stop u phase compare due soon =>
      rcases phase_atimWindowEnd phase hfires with hphase | ⟨built, hphase⟩
      · have htimer : s'.timer = none := State.timer_of_phase hphase
        simp only [Clock.after, htimer]
        exact .idle hphase rfl
      · exact .softBeacon hphase built
  | soft u phase built compare due soon =>
      exact .softBeacon (phase_softBeaconTx phase hfires) built

/-- A step that is no timing interrupt runs code of the main loop, or an interrupt
that leaves the window alone. -/
theorem quiet_step {d d' : Config State} {l : Label Irq Call}
    (hacts : Acts (CodeAction cf) d.rest) (hstep : (machine cf).step d l = some d')
    (hl : ∀ i, l = .irq i → i.isTiming = false) :
    Acts (CodeAction cf) d'.rest ∧ d'.state.phase = d.state.phase := by
  rcases Machine.step_cases hstep with ⟨i, s', hi, hirq, rfl⟩ | ⟨f, k, -, hrest, rfl⟩ |
    ⟨cond, p, -, hrest, -, rfl⟩ | ⟨k, -, -, rfl⟩
  · exact ⟨hacts, phase_irq (hl i hi) hirq⟩
  · rw [hrest] at hacts
    exact ⟨hacts.2 d.state, hacts.1.phase d.state⟩
  · rw [hrest] at hacts
    exact ⟨hacts, rfl⟩
  · exact ⟨acts_body cf k, rfl⟩

/-- The timer and the timestamps change, and nothing the schedule is computed from. -/
theorem fitting_after (l : Label Irq Call) :
    (c.after cf s s' l).Fitting cf tu ↔ c.Fitting cf tu := by
  unfold Clock.after
  split
  · split
    · rw [Clock.rtimerSet_eq]
      exact Iff.rfl
    · exact Iff.rfl
  · split
    · exact Iff.rfl
    · rw [Clock.rtimerSet_eq]
      exact Iff.rfl
  · exact Iff.rfl

theorem after_of_quiet {l : Label Irq Call} (hl : ∀ i, l = .irq i → i.isTiming = false) :
    c.after cf s s' l = c := by
  cases l with
  | irq i =>
      have hi := hl i rfl
      cases i with
      | preTbtt => simp [Irq.isTiming] at hi
      | timer => simp [Irq.isTiming] at hi
      | _ => rfl
  | main => rfl
  | call k => rfl

/-- The values that a beacon announces are new to the station. -/
def Clock.IsNew (c : Clock) (beaconInt atimWindow : UInt16) : Prop :=
  c.beaconInt ≠ beaconInt ∨ c.atimWindow ≠ atimWindow

/-- What the steps of a run have to meet: new values fit and come before the ATIM
window, and no soft beacon is due at the very tick of PRE-TBTT. -/
def valuesFit (cf : Conf) (tu : Nat) : Guard Timed TimedLabel Empty where
  irq l t :=
    match l with
    | .step (.irq (.preTbtt _)) => t.clock.compare ≠ some t.clock.now
    | .adopt beaconInt atimWindow =>
        t.clock.IsNew beaconInt atimWindow →
          t.config.state.psmState = .preTbtt ∧
            Fits cf tu (programmed t.clock.period beaconInt.toNat) atimWindow.toNat
              t.clock.softBeaconInt.toNat
    | _ => True
  call k _ := k.elim

theorem fitting_setBeaconTimers {beaconInt atimWindow : UInt16}
    (h : Fits cf tu (programmed c.period beaconInt.toNat) atimWindow.toNat
      c.softBeaconInt.toNat) :
    (Clock.setBeaconTimers { c with beaconInt := beaconInt, atimWindow := atimWindow }).Fitting
      cf tu := by
  have hperiod : (Clock.setBeaconTimers
      { c with beaconInt := beaconInt, atimWindow := atimWindow }).period =
        programmed c.period beaconInt.toNat := Clock.period_setBeaconTimers
  rw [Clock.Fitting, hperiod, Clock.setBeaconTimers_eq]
  exact h

theorem OnSchedule.install (h : OnSchedule cf tu s c) (hpsm : s.psmState = .preTbtt)
    (beaconInt atimWindow : UInt16) :
    OnSchedule cf tu s
      (Clock.setBeaconTimers { c with beaconInt := beaconInt, atimWindow := atimWindow }) := by
  have hphase : s.phase.1 = .preTbtt := hpsm
  rw [Clock.setBeaconTimers_eq]
  cases h with
  | idle phase _ => rw [phase] at hphase; cases hphase
  | start u phase compare due later soon => exact .start u phase compare due later soon
  | stop _ phase _ _ _ => rw [phase] at hphase; cases hphase
  | soft _ phase _ _ _ _ => rw [phase] at hphase; cases hphase

/-- Every step that meets the condition keeps the station on schedule. -/
theorem Timed.Inv.step {t t' : Timed} {l : TimedLabel} (h : t.Inv cf tu)
    (hl : (valuesFit cf tu).irq l t) (hstep : timedStep cf tu l t = some t') :
    t'.Inv cf tu := by
  obtain ⟨hacts, hfit, hsched⟩ := h
  cases l with
  | wait u =>
      simp only [timedStep, Option.ite_none_right_eq_some, Option.some.injEq] at hstep
      obtain ⟨hwait, rfl⟩ := hstep
      exact ⟨hacts, hfit, hsched.wait hwait⟩
  | adopt beaconInt atimWindow =>
      simp only [timedStep, Option.some.injEq] at hstep
      subst hstep
      by_cases hnew : t.clock.IsNew beaconInt atimWindow
      · have hvalues := hl hnew
        have hinstall : t.clock.install beaconInt atimWindow = _ := if_pos hnew
        simp only [hinstall]
        exact ⟨hacts, fitting_setBeaconTimers hvalues.2, hsched.install hvalues.1 _ _⟩
      · have hinstall : t.clock.install beaconInt atimWindow = t.clock := if_neg hnew
        simp only [hinstall]
        exact ⟨hacts, hfit, hsched⟩
  | step l =>
      simp only [timedStep, Option.ite_none_right_eq_some, Option.map_eq_some_iff] at hstep
      obtain ⟨hdue, d, hd, rfl⟩ := hstep
      by_cases hquiet : ∀ i, l = .irq i → i.isTiming = false
      · obtain ⟨hacts', hphase⟩ := quiet_step hacts hd hquiet
        refine ⟨hacts', (fitting_after l).mpr hfit, ?_⟩
        simp only [after_of_quiet hquiet]
        exact hsched.of_phase hphase
      · simp only [not_forall, exists_prop] at hquiet
        obtain ⟨i, rfl, hi⟩ := hquiet
        simp only [Machine.step, Option.map_eq_some_iff] at hd
        obtain ⟨s', hirq, rfl⟩ := hd
        refine ⟨hacts, (fitting_after _).mpr hfit, ?_⟩
        cases i with
        | preTbtt rfOn =>
            cases hirq
            exact hsched.preTbtt hfit hdue hl rfOn t.config.state
        | timer => exact hsched.timer hfit hdue hirq
        | _ => simp [Irq.isTiming] at hi

/-! ### Runs -/

/-- A step from `t` to `t'` is as the schedule wants it. PRE-TBTT finds the station
in the TX window or sending soft beacons, and sets the start of the ATIM window for
later. When the ATIM window starts, its end is set for later too, and before the next
PRE-TBTT. The pre-TBTT offset is not subtracted from a shorter beacon interval. -/
def Proper (tu : Nat) (t t' : Timed) : TimedLabel → Prop
  | .step (.irq (.preTbtt _)) =>
      (t.config.state.psmState = .txWindow ∨ t.config.state.psmState = .softBcnWindow) ∧
        (t'.config.state.timer = some .atimWindowStart → t'.clock.preTbtt < t'.clock.time)
  | .step (.irq .timer) =>
      t.config.state.timer = some .atimWindowStart →
        t.clock.preTbtt < t.clock.now ∧ t.clock.now < t'.clock.time ∧
          t'.clock.time < t'.clock.next tu
  | .adopt beaconInt atimWindow =>
      t.clock.IsNew beaconInt atimWindow →
        t'.clock.globalPretbtt = t.clock.globalPretbtt ∨ t'.clock.globalPretbtt = 0 ∨
          t'.clock.globalPretbtt.toNat + pretbttKus = beaconInt.toNat
  | _ => True

theorem proper_preTbtt {t t' : Timed} {rfOn : Bool} (h : t.Inv cf tu)
    (hstep : timedStep cf tu (.step (.irq (.preTbtt rfOn))) t = some t') :
    Proper tu t t' (.step (.irq (.preTbtt rfOn))) := by
  simp only [timedStep, Option.ite_none_right_eq_some, Option.map_eq_some_iff] at hstep
  obtain ⟨hdue, d, hd, rfl⟩ := hstep
  simp only [Machine.step, Option.map_eq_some_iff] at hd
  obtain ⟨s', hirq, rfl⟩ := hd
  cases hirq
  have htx := h.onSchedule.txWindow_of_due h.fitting hdue
  constructor
  · rcases htx with ⟨phase, -⟩ | ⟨phase, -⟩
    · exact .inl (State.psmState_of_phase phase)
    · exact .inr (State.psmState_of_phase phase)
  · intro htimer
    have hphase := phase_rspPreTbtt cf rfOn t.config.state
    by_cases hps : cf.vifType = .adhoc ∧ cf.confPs
    · simp only [Clock.after, if_pos hps, Clock.delay_atimWindowStart]
      rw [Clock.rtimerSet_eq]
      simp only
      omega
    · rw [if_neg hps] at hphase
      have hsame : (rspPreTbtt cf rfOn t.config.state).timer = t.config.state.timer :=
        congrArg Prod.snd hphase
      rcases htx with ⟨phase, -⟩ | ⟨phase, -⟩
      · rw [hsame, State.timer_of_phase phase] at htimer
        cases htimer
      · rw [hsame, State.timer_of_phase phase] at htimer
        cases htimer

theorem proper_timer {t t' : Timed} (h : t.Inv cf tu)
    (hstep : timedStep cf tu (.step (.irq .timer)) t = some t') :
    Proper tu t t' (.step (.irq .timer)) := by
  simp only [timedStep, Option.ite_none_right_eq_some, Option.map_eq_some_iff] at hstep
  obtain ⟨hdue, d, hd, rfl⟩ := hstep
  simp only [Machine.step, Option.map_eq_some_iff] at hd
  obtain ⟨s', hirq, rfl⟩ := hd
  intro htimer
  have hnow : t.clock.compare = some t.clock.now := hdue
  cases h.onSchedule with
  | idle phase _ =>
      rw [State.timer_of_phase phase] at htimer
      cases htimer
  | stop _ phase _ _ _ =>
      rw [State.timer_of_phase phase] at htimer
      cases htimer
  | soft _ phase _ _ _ _ =>
      rw [State.timer_of_phase phase] at htimer
      cases htimer
  | start u phase compare due later soon =>
      have hu : u = t.clock.now := Option.some.inj (compare.symm.trans hnow)
      have hphase := phase_atimWindowStart phase hirq
      have hset : s'.timer = some .atimWindowEnd := State.timer_of_phase hphase
      have hpos := delay_atimWindowEnd_pos h.fitting
      have hend := atimWindowEnd_lt_next h.fitting (due.trans soon)
      simp only [Clock.after, hset]
      rw [Clock.rtimerSet_eq]
      exact ⟨by omega, by simp only; omega, hend⟩

theorem proper_adopt {t t' : Timed} {beaconInt atimWindow : UInt16}
    (hstep : timedStep cf tu (.adopt beaconInt atimWindow) t = some t') :
    Proper tu t t' (.adopt beaconInt atimWindow) := by
  simp only [timedStep, Option.some.injEq] at hstep
  subst hstep
  intro hnew
  have hinstall : t.clock.install beaconInt atimWindow = _ := if_pos hnew
  simp only [hinstall]
  exact Clock.globalPretbtt_setBeaconTimers _

theorem Timed.Inv.proper {t t' : Timed} {l : TimedLabel} (h : t.Inv cf tu)
    (hstep : timedStep cf tu l t = some t') : Proper tu t t' l := by
  cases l with
  | wait => trivial
  | adopt => exact proper_adopt hstep
  | step l =>
      cases l with
      | irq i =>
          cases i with
          | preTbtt rfOn => exact proper_preTbtt h hstep
          | timer => exact proper_timer h hstep
          | _ => trivial
      | _ => trivial

theorem period_configured (beaconInt atimWindow softBeaconInt : UInt16) :
    (Clock.configured beaconInt atimWindow softBeaconInt).period = 0 := by
  simp [Clock.configured, Clock.period]

theorem inv_init {beaconInt atimWindow softBeaconInt : UInt16}
    (h : Fits cf tu (programmed 0 beaconInt.toNat) atimWindow.toNat softBeaconInt.toNat) :
    (Timed.init beaconInt atimWindow softBeaconInt).Inv cf tu where
  acts := trivial
  fitting := by
    rw [Timed.init, Clock.Fitting, Clock.period_setBeaconTimers, period_configured,
      Clock.setBeaconTimers_eq]
    exact h
  onSchedule := by
    rw [Timed.init, Clock.setBeaconTimers_eq]
    exact .idle rfl rfl

theorem inv_of_run {beaconInt atimWindow softBeaconInt : UInt16}
    (hinit : Fits cf tu (programmed 0 beaconInt.toNat) atimWindow.toNat softBeaconInt.toNat)
    {ls : List (Label TimedLabel Empty)} {d : Config Timed}
    (hrun : (timed cf tu).Run (valuesFit cf tu)
      (Config.idle (Timed.init beaconInt atimWindow softBeaconInt)) ls d) :
    d.state.Inv cf tu ∧ d.rest = .ret () := by
  induction hrun with
  | nil => exact ⟨inv_init hinit, rfl⟩
  | snoc l _ hadmits hstep ih =>
      obtain ⟨hinv, hrest⟩ := ih
      rcases Machine.step_cases hstep with ⟨i, t', rfl, hirq, rfl⟩ | ⟨f, k, -, hact, -⟩ |
        ⟨cond, p, -, hwait, -⟩ | ⟨k, -, -, -⟩
      · exact ⟨hinv.step hadmits hirq, hrest⟩
      · rw [hrest] at hact
        cases hact
      · rw [hrest] at hwait
        cases hwait
      · exact k.elim

/-- From any values of the configuration that fit, every step of every run whose
received values fit is as the schedule wants it. -/
theorem proper_of_run {cf : Conf} {tu : Nat} {beaconInt atimWindow softBeaconInt : UInt16}
    (hinit : Fits cf tu (programmed 0 beaconInt.toNat) atimWindow.toNat softBeaconInt.toNat)
    {ls : List (Label TimedLabel Empty)} {d : Config Timed}
    (hrun : (timed cf tu).Run (valuesFit cf tu)
      (Config.idle (Timed.init beaconInt atimWindow softBeaconInt)) ls d)
    {l : TimedLabel} {t' : Timed} (hstep : timedStep cf tu l d.state = some t') :
    Proper tu d.state t' l :=
  (inv_of_run hinit hrun).1.proper hstep

instance (cf : Conf) (tu : Nat) (t : Timed) (l : Label TimedLabel Empty) :
    Decidable ((valuesFit cf tu).admits t l) :=
  match l with
  | .irq (.step (.irq (.preTbtt _))) =>
      inferInstanceAs (Decidable (t.clock.compare ≠ some t.clock.now))
  | .irq (.step (.irq .timer)) => .isTrue trivial
  | .irq (.step (.irq (.txStatus _))) => .isTrue trivial
  | .irq (.step (.irq .txComp)) => .isTrue trivial
  | .irq (.step (.irq .bulkOutDone)) => .isTrue trivial
  | .irq (.step (.irq .beaconConfig)) => .isTrue trivial
  | .irq (.step (.irq (.rxAtim _ _))) => .isTrue trivial
  | .irq (.step (.irq (.rxOther _))) => .isTrue trivial
  | .irq (.step (.irq (.env _))) => .isTrue trivial
  | .irq (.step .main) => .isTrue trivial
  | .irq (.step (.call _)) => .isTrue trivial
  | .irq (.wait _) => .isTrue trivial
  | .irq (.adopt beaconInt atimWindow) =>
      inferInstanceAs (Decidable ((_ ∨ _) → t.config.state.psmState = .preTbtt ∧
        Fits cf tu (programmed t.clock.period beaconInt.toNat) atimWindow.toNat
          t.clock.softBeaconInt.toNat))
  | .main => .isTrue trivial
  | .call k => k.elim

/-- The start of the first ATIM window with the values of the configuration. -/
theorem proper_of_run_firstInterval : ∃ d t',
    timedStep Conf.std 10752 (.step (.irq .timer)) d = some t' ∧
      d.clock.preTbtt < d.clock.now ∧ d.clock.now < t'.clock.time ∧
        t'.clock.time < t'.clock.next 10752 := by
  obtain ⟨d, hrun, hstep, htimer⟩ := Machine.exists_run_of_exec (timed Conf.std 10752)
    (valuesFit Conf.std 10752) (Config.idle (Timed.init 200 100 20))
    [.irq (.wait 2150400), .irq (.step (.irq (.preTbtt true))), .irq (.wait 2318400)]
    (fun t => (timedStep Conf.std 10752 (.step (.irq .timer)) t).isSome ∧
      t.config.state.timer = some .atimWindowStart) (by decide) (by decide)
  obtain ⟨t', ht'⟩ := Option.isSome_iff_exists.mp hstep
  have hproper := proper_of_run (by decide) hrun ht'
  exact ⟨d.state, t', ht', hproper htimer⟩

/-- A beacon with an ATIM window of 4: the end of the window is due before its
start, and the next PRE-TBTT finds the station in the ATIM window. -/
theorem not_proper_shortWindow : ∃ d t',
    (timed Conf.std 10752).Run Guard.any (Config.idle (Timed.init 200 100 20))
      [.irq (.wait 2150400), .irq (.step (.irq (.preTbtt true))), .irq (.adopt 200 4),
        .irq (.wait 2318400), .irq (.step (.irq .timer)), .irq (.wait 4300800)] d ∧
      timedStep Conf.std 10752 (.step (.irq (.preTbtt true))) d.state = some t' ∧
      ¬ Proper 10752 d.state t' (.step (.irq (.preTbtt true))) := by
  obtain ⟨d, hrun, hstep, hpsm⟩ := Machine.exists_run_of_exec (timed Conf.std 10752)
    Guard.any (Config.idle (Timed.init 200 100 20))
    [.irq (.wait 2150400), .irq (.step (.irq (.preTbtt true))), .irq (.adopt 200 4),
      .irq (.wait 2318400), .irq (.step (.irq .timer)), .irq (.wait 4300800)]
    (fun t => (timedStep Conf.std 10752 (.step (.irq (.preTbtt true))) t).isSome ∧
      t.config.state.psmState = .atimWindow) (by decide) (by decide)
  obtain ⟨t', ht'⟩ := Option.isSome_iff_exists.mp hstep
  refine ⟨d, t', hrun, ht', fun h => ?_⟩
  rcases h.1 with htx | hsoft
  · rw [hpsm] at htx
    cases htx
  · rw [hpsm] at hsoft
    cases hsoft

end Calipso.Ar9170
