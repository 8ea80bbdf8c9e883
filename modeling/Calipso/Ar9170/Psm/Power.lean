import Calipso.Ar9170.Psm.Actions

/-!
# The power-save decision and what does not touch it

`State.power` collects the fields and the observations of the power-save
decision. Only PRE-TBTT, the timer and the power-save check of the scheduler
write to them; everything else leaves `State.power` as it was.
-/

namespace Calipso.Ar9170

open Interrupt

/-- The observations of the power-save requests. -/
def Obs.isPower : Obs → Bool
  | .sleepPosted _ => true
  | .sleepDone _ => true
  | .wakePosted _ => true
  | _ => false

/-- The fields and the observations of the power-save decision. -/
def State.power (s : State) :
    OpState × Bool × BitVec 32 × Bool × Option TimerCallback × Nat × List Obs :=
  (s.psmState, s.psState, s.updateMask, s.psmTransitToWake, s.timer, s.interval,
    s.trace.filter Obs.isPower)

theorem updateMask_of_power {s t : State} (h : t.power = s.power) :
    t.updateMask = s.updateMask := congrArg (fun p => p.2.2.1) h

theorem psmTransitToWake_of_power {s t : State} (h : t.power = s.power) :
    t.psmTransitToWake = s.psmTransitToWake := congrArg (fun p => p.2.2.2.1) h

theorem EraseAction.power {f : State → State} (hf : EraseAction f) (s : State) :
    (f s).power = s.power := by
  cases hf
  case skipErase => unfold Ar9170.skipErase; split <;> rfl
  case eraseIfEmpty => unfold Ar9170.eraseIfEmpty; split <;> rfl
  all_goals rfl

theorem CreateAction.power {cf : Conf} {f : State → State} (hf : CreateAction cf f) (s : State) :
    (f s).power = s.power := by
  cases hf
  case addAtim => rw [addAtim_eq]; rfl
  case addData => rw [addData_eq]; rfl
  all_goals rfl

theorem SubmitAction.power {f : State → State} (hf : SubmitAction f) (s : State) :
    (f s).power = s.power := by
  cases hf
  case sendData => unfold Ar9170.sendData; split <;> rfl
  case allocBeaconBuffer => unfold Ar9170.allocBeaconBuffer; split <;> rfl
  all_goals rfl

theorem SendAction.power {f : State → State} (hf : SendAction f) (s : State) :
    (f s).power = s.power := by
  cases hf with
  | submit hf => exact hf.power s
  | setQueue kind queue => cases kind <;> rfl

theorem PickAction.power {f : State → State} (hf : PickAction f) (s : State) :
    (f s).power = s.power := by
  cases hf
  case markSelected => unfold Ar9170.markSelected; split <;> rfl
  case takeOut => unfold Ar9170.takeOut; split <;> rfl
  all_goals rfl

theorem TxAction.power {f : State → State} (hf : TxAction f) (s : State) :
    (f s).power = s.power := by
  cases hf
  case mgmt hf =>
    cases hf
    case pick hf => exact hf.power s
    case send hf => exact hf.power s
    all_goals rfl
  all_goals rfl

theorem RxAction.power {cf : Conf} {f : State → State} (hf : RxAction cf f) (s : State) :
    (f s).power = s.power := by
  cases hf
  case create hf => exact hf.power s
  all_goals rfl

variable {cf : Conf}

theorem sleepMask_transition :
    (psUpdateTransitionFlag ||| psUpdateActionSleep) &&& psUpdateTransitionFlag ≠ 0 := by decide

theorem sleepMask_sleep :
    (psUpdateTransitionFlag ||| psUpdateActionSleep) &&& psUpdateActionSleep ≠ 0 := by decide

theorem wakeMask_transition :
    (psUpdateTransitionFlag ||| psUpdateActionWake) &&& psUpdateTransitionFlag ≠ 0 := by decide

theorem wakeMask_sleep :
    (psUpdateTransitionFlag ||| psUpdateActionWake) &&& psUpdateActionSleep = 0 := by decide

theorem creditLastAtim_power (st : TxStatus) (s : State) :
    (creditLastAtim cf st s).power = s.power := by
  unfold creditLastAtim
  split
  · rfl
  · split
    · rfl
    · split <;> rfl
    · split <;> rfl

theorem settle_power (s : State) : s.settle.power = s.power := by
  unfold State.settle
  split <;> rfl

theorem clearWaitFlags_power (s : State) : (clearWaitFlags s).power = s.power :=
  settle_power _

theorem txStatus_power (st : TxStatus) (s : State) : (txStatus cf st s).power = s.power := by
  unfold txStatus
  split
  · rfl
  · split
    · split
      · rw [settle_power]
        exact creditLastAtim_power st (releaseTxAtimWait s)
      · rfl
    · rw [settle_power]
      rfl

theorem txCompUnlock_power (s : State) : (txCompUnlock s).power = s.power := by
  unfold txCompUnlock
  split <;> rfl

theorem rspBeaconConfig_power (s : State) : (rspBeaconConfig cf s).power = s.power := by
  unfold rspBeaconConfig
  split <;> rfl

theorem scheduleHandleMpdu_power (frame : RxFrame) (mallocOk : Bool) (s : State) :
    (scheduleHandleMpdu frame mallocOk s).power = s.power := by
  unfold scheduleHandleMpdu
  split <;> rfl

/-- The events that may touch the power-save decision. -/
def Irq.isPower : Irq → Bool
  | .preTbtt _ => true
  | .timer => true
  | _ => false

/-- Every other event leaves the power-save decision alone. -/
theorem irq_power {i : Irq} {s s' : State} (hi : i.isPower = false)
    (h : irq cf i s = some s') : s'.power = s.power := by
  cases i with
  | preTbtt rfOn => cases hi
  | timer => cases hi
  | txStatus st =>
      obtain ⟨-, rfl⟩ := irq_txStatus_eq_some h
      exact txStatus_power st _
  | txComp => cases h; exact txCompUnlock_power s
  | bulkOutDone => cases h; rfl
  | beaconConfig => cases h; exact rspBeaconConfig_power s
  | rxAtim mgmt ok => cases h; exact scheduleHandleMpdu_power _ ok s
  | rxOther ok => cases h; exact scheduleHandleMpdu_power _ ok s
  | env e => cases h; rfl

/-- A condition on the state a PRE-TBTT finds, and on the RF state it reports. -/
def preTbttGuard (P : Bool → State → Prop) : Guard State Irq Call where
  irq
    | .preTbtt rfOn, s => P rfOn s
    | _, _ => True
  call _ _ := True

instance (P : Bool → State → Prop) [∀ rfOn s, Decidable (P rfOn s)] (s : State)
    (l : Label Irq Call) : Decidable ((preTbttGuard P).admits s l) :=
  match l with
  | .irq (.preTbtt rfOn) => inferInstanceAs (Decidable (P rfOn s))
  | .irq .timer | .irq (.txStatus _) | .irq .txComp | .irq .bulkOutDone
  | .irq .beaconConfig | .irq (.rxAtim _ _) | .irq (.rxOther _) | .irq (.env _)
  | .main | .call _ => .isTrue trivial

/-- The device reports RF on at every PRE-TBTT. -/
abbrev rfOnGuard : Guard State Irq Call :=
  preTbttGuard fun rfOn _ => rfOn = true

/-- One beacon interval up to the end of the ATIM window. -/
def atimWindowElapses : List (Label Irq Call) :=
  [.irq (.preTbtt true), .irq .timer, .irq .timer]

/-- The scheduler does not run between the end of the ATIM window and the next
PRE-TBTT. -/
def sleepTooLate : List (Label Irq Call) :=
  atimWindowElapses ++ [.irq (.preTbtt true)] ++ callFor .opScheduler 8

end Calipso.Ar9170
