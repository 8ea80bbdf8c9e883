import Calipso.Interrupt.Ghost
import Calipso.Ar9170.Psm.Transition

/-!
# The windows in which frames are submitted

On the way to a submission the scheduler and the transmit routines test the state of the
power-save manager up to three times, unprotected. The last test of `ar9170_async_tx` is the
same for both queues, so a frame of one queue may be submitted in the window of the other one,
and a transition to sleep may begin between the first test and the last. The branch for soft
beacons stands under a test of the two queues, and is not reached while both are empty.

The code is written again here with a record of the last tests; without the record it is the
code of the scheduler (`shadows_opSchedulerWatched`).
-/

namespace Calipso.Ar9170

open Interrupt

/-- How far the transmit check has come: outside of it, behind its first tests, or in the branch
for a kind of frame, up to the last test. -/
inductive Stage
  | outside
  | entered
  | sending (kind : TxKind)
  deriving DecidableEq, Repr

/-- The last test of the PSM state before a submission: the kind of frame, and what the state
was. -/
structure WindowTest where
  kind : TxKind
  psmState : OpState
  psState : Bool
  psmTransitToSleep : Bool
  deriving DecidableEq, Repr

/-- The record beside the state of the driver. -/
structure Watch where
  stage : Stage
  tests : List WindowTest
  deriving DecidableEq, Repr

def Watch.start : Watch where
  stage := .outside
  tests := []

/-- The window in which this kind of frame may be submitted. -/
def TxKind.window : TxKind → OpState
  | .data => .txWindow
  | .atim => .atimWindow
  | .beacon => .softBcnWindow

/-- The frame may be submitted: it is its window, and the device is awake and stays so. -/
def WindowTest.Permitted (t : WindowTest) : Prop :=
  t.psmState = t.kind.window ∧ t.psState = false ∧ t.psmTransitToSleep = false

instance (t : WindowTest) : Decidable t.Permitted := inferInstanceAs (Decidable (_ ∧ _))

variable (cf : Conf)

section Record

def setStage (stage : Stage) (s : State × Watch) : State × Watch :=
  (s.1, { s.2 with stage := stage })

/-- The first tests of the transmit check are passed. -/
def enter (asleep : Bool) (s : State × Watch) : State × Watch :=
  if asleep || s.1.psmTransitToSleep then s else setStage .entered s

/-- The test for the window of this branch. -/
def choose (kind : TxKind) (s : State × Watch) : State × Watch :=
  if s.1.psmState = kind.window then setStage (.sending kind) s else s

/-- The last test is passed. -/
def passTest (kind : TxKind) (s : State × Watch) : State × Watch :=
  (s.1,
    { stage := .outside
      tests := s.2.tests ++ [⟨kind, s.1.psmState, s.1.psState, s.1.psmTransitToSleep⟩] })

/-- The test for the window of the soft beacons. -/
def chooseBeacon (s : State × Watch) : State × Watch :=
  if s.1.psmState = .softBcnWindow then passTest .beacon s else s

/-- The first test of `ar9170_async_tx`, which is the last one if it finds the TX window. -/
def firstTest (kind : TxKind) (asleep : Bool) (s : State × Watch) : State × Watch :=
  if asleep = false ∧ s.1.psmState = .txWindow then passTest kind s else s

/-- The second test, which is made if the first one does not find the TX window. -/
def secondTest (kind : TxKind) (asleep : Bool) (psm : OpState) (s : State × Watch) :
    State × Watch :=
  if asleep = false ∧ psm ≠ .txWindow ∧ s.1.psmState = .atimWindow then passTest kind s
  else setStage .outside s

end Record

section Code

/-- `asyncTx` with the record of its last test. -/
def asyncTxWatched (kind : TxKind) : Prog (State × Watch) Unit := do
  let lock ← (Prog.read State.txAsyncLock).lift Watch
  if lock then pure ()
  else
    let txQueue ← (Prog.read fun s => s.queue kind).lift Watch
    match txQueue with
    | [] => pure ()
    | nextSkb :: rest => do
        let asleep ← (Prog.read State.psState).lift Watch
        let psm ← Prog.atomically (fun s => s.1.psmState) (firstTest kind asleep)
        let psm' ← Prog.atomically (fun s => s.1.psmState) (secondTest kind asleep psm)
        if asleep || (psm ≠ .txWindow && psm' ≠ .atimWindow) then pure ()
        else
          (Prog.modify (setQueue kind (restoreA3 cf kind nextSkb :: rest)) >>= fun _ =>
            opTx kind (restoreA3 cf kind nextSkb) >>= fun _ =>
              Prog.modify (setQueue kind rest)).lift Watch

def psmAsyncTxDataWatched : Prog (State × Watch) Unit := do
  let psm ← (Prog.read State.psmState).lift Watch
  if psm = .atimWindow then pure ()
  else
    let psm ← (Prog.read State.psmState).lift Watch
    if psm = .txWindow then
      let free ← notWaiting.lift Watch
      if free then
        let queue ← psmCanSendFirstPkt.lift Watch
        match queue with
        | [] => pure ()
        | f :: rest => do
            (Prog.modify startTxDataWait).lift Watch
            (Prog.modify (handOver f rest)).lift Watch
            asyncTxWatched cf .data
      else pure ()
    else pure ()

def psmAsyncTxMgmtWatched : Prog (State × Watch) Unit := do
  let queue ← psmCanSendFirstAtim.lift Watch
  match queue with
  | [] => pure ()
  | atim :: rest => do
      (Prog.modify (setQueue .atim (atim :: rest))).lift Watch
      let free ← notWaiting.lift Watch
      if free then
        (Prog.modify startTxAtimWait).lift Watch
        (saveLastAtim cf atim).lift Watch
        asyncTxWatched cf .atim
        let override ← (Prog.read State.offOverride).lift Watch
        (Prog.modify (setOffOverride (override ||| psOffAtim))).lift Watch
      else pure ()

def schTxAtimWatched : Prog (State × Watch) Unit := do
  let asleep ← (Prog.read State.psState).lift Watch
  if asleep then pure ()
  else
    let atims ← (Prog.read State.txPendingAtims).lift Watch
    if atims = [] then pure ()
    else
      let free ← notWaiting.lift Watch
      if free then psmAsyncTxMgmtWatched cf else pure ()

def schTxDataWatched : Prog (State × Watch) Unit := do
  let asleep ← (Prog.read State.psState).lift Watch
  if asleep then pure ()
  else
    let pkts ← (Prog.read State.txPendingPkts).lift Watch
    if pkts = [] then pure ()
    else
      let free ← notWaiting.lift Watch
      if free then
        if cf.confPs then psmAsyncTxDataWatched cf else asyncTxWatched cf .data
      else pure ()

/-- `schAsyncTxCheck` with the record of how far it has come. -/
def schAsyncTxCheckWatched : Prog (State × Watch) Unit := do
  let asleep ← (Prog.read State.psState).lift Watch
  let transit ← Prog.atomically (fun s => s.1.psmTransitToSleep) (enter asleep)
  if asleep || transit then pure ()
  else
    let pkts ← (Prog.read State.txPendingPkts).lift Watch
    let atims ← (Prog.read State.txPendingAtims).lift Watch
    if pkts = [] ∧ atims = [] then pure ()
    else
      let psm ← Prog.atomically (fun s => s.1.psmState) (choose .atim)
      if psm = .atimWindow then schTxAtimWatched cf
      else
        let psm ← Prog.atomically (fun s => s.1.psmState) (choose .data)
        if psm = .txWindow then schTxDataWatched cf
        else
          let psm ← Prog.atomically (fun s => s.1.psmState) chooseBeacon
          if psm = .softBcnWindow then (schTxSoftBeacon cf).lift Watch else pure ()

/-- `schAsyncRxCheck`; the transmit check before it is over. -/
def schAsyncRxCheckWatched : Prog (State × Watch) Unit := do
  let pending ← Prog.atomically (fun s => s.1.rxPendingPkts) (setStage .outside)
  (if pending = [] then pure ()
  else
    Prog.read State.psmState >>= fun psm =>
      if psm = .preTbtt then pure () else asyncRx cf).lift Watch

def opSchedulerWatched : Prog (State × Watch) Unit := do
  schEraseNodesCheck.lift Watch
  schPowersaveCheck.lift Watch
  schAsyncTxCheckWatched cf
  schAsyncRxCheckWatched cf

/-- The driver with the record. -/
def watched : Machine (State × Watch) Irq Call :=
  (machine cf).ghost fun
    | .opScheduler => opSchedulerWatched cf
    | .ieee80211OpScheduler => (ieee80211OpScheduler cf).lift Watch
    | .startXmit da nextHop => (startXmit cf da nextHop).lift Watch

end Code

section Shadows

@[simp] theorem setStage_fst (stage : Stage) (s : State × Watch) :
    (setStage stage s).1 = s.1 := rfl

theorem enter_fst (asleep : Bool) (s : State × Watch) : (enter asleep s).1 = s.1 := by
  rw [enter]
  split <;> rfl

theorem choose_fst (kind : TxKind) (s : State × Watch) : (choose kind s).1 = s.1 := by
  rw [choose]
  split <;> rfl

theorem chooseBeacon_fst (s : State × Watch) : (chooseBeacon s).1 = s.1 := by
  rw [chooseBeacon]
  split <;> rfl

theorem firstTest_fst (kind : TxKind) (asleep : Bool) (s : State × Watch) :
    (firstTest kind asleep s).1 = s.1 := by
  rw [firstTest]
  split <;> rfl

theorem secondTest_fst (kind : TxKind) (asleep : Bool) (psm : OpState) (s : State × Watch) :
    (secondTest kind asleep psm s).1 = s.1 := by
  rw [secondTest]
  split <;> rfl

theorem shadows_asyncTxWatched (kind : TxKind) :
    (asyncTxWatched cf kind).Shadows (asyncTx cf kind) := by
  refine .bind (.lift _) fun lock => ?_
  split
  · exact .ret _
  · refine .bind (.lift _) fun txQueue => ?_
    cases txQueue with
    | nil => exact .ret _
    | cons nextSkb rest =>
      refine .bind (.lift _) fun asleep => ?_
      refine .bind (.atomically (fun _ => rfl) (firstTest_fst kind asleep)) fun psm => ?_
      refine .bind (.atomically (fun _ => rfl) (secondTest_fst kind asleep psm)) fun psm' => ?_
      split
      · exact .ret _
      · exact .lift _

theorem shadows_psmAsyncTxDataWatched :
    (psmAsyncTxDataWatched cf).Shadows (psmAsyncTxData cf) := by
  refine .bind (.lift _) fun psm => ?_
  split
  · exact .ret _
  · refine .bind (.lift _) fun psm => ?_
    split
    · refine .bind (.lift _) fun free => ?_
      split
      · refine .bind (.lift _) fun queue => ?_
        cases queue with
        | nil => exact .ret _
        | cons f rest =>
          refine .bind (.lift _) fun _ => .bind (.lift _) fun _ => ?_
          exact shadows_asyncTxWatched cf .data
      · exact .ret _
    · exact .ret _

theorem shadows_psmAsyncTxMgmtWatched :
    (psmAsyncTxMgmtWatched cf).Shadows (psmAsyncTxMgmt cf) := by
  refine .bind (.lift _) fun queue => ?_
  cases queue with
  | nil => exact .ret _
  | cons atim rest =>
    refine .bind (.lift _) fun _ => .bind (.lift _) fun free => ?_
    split
    · refine .bind (.lift _) fun _ => .bind (.lift _) fun _ => ?_
      refine .bind (shadows_asyncTxWatched cf .atim) fun _ => ?_
      exact .bind (.lift _) fun override => .lift _
    · exact .ret _

theorem shadows_schTxAtimWatched : (schTxAtimWatched cf).Shadows (schTxAtim cf) := by
  refine .bind (.lift _) fun asleep => ?_
  split
  · exact .ret _
  · refine .bind (.lift _) fun atims => ?_
    split
    · exact .ret _
    · refine .bind (.lift _) fun free => ?_
      split
      · exact shadows_psmAsyncTxMgmtWatched cf
      · exact .ret _

theorem shadows_schTxDataWatched : (schTxDataWatched cf).Shadows (schTxData cf) := by
  refine .bind (.lift _) fun asleep => ?_
  split
  · exact .ret _
  · refine .bind (.lift _) fun pkts => ?_
    split
    · exact .ret _
    · refine .bind (.lift _) fun free => ?_
      split
      · split
        · exact shadows_psmAsyncTxDataWatched cf
        · exact shadows_asyncTxWatched cf .data
      · exact .ret _

theorem shadows_schAsyncTxCheckWatched :
    (schAsyncTxCheckWatched cf).Shadows (schAsyncTxCheck cf) := by
  refine .bind (.lift _) fun asleep => ?_
  refine .bind (.atomically (fun _ => rfl) (enter_fst asleep)) fun transit => ?_
  split
  · exact .ret _
  · refine .bind (.lift _) fun pkts => .bind (.lift _) fun atims => ?_
    split
    · exact .ret _
    · refine .bind (.atomically (fun _ => rfl) (choose_fst .atim)) fun psm => ?_
      split
      · exact shadows_schTxAtimWatched cf
      · refine .bind (.atomically (fun _ => rfl) (choose_fst .data)) fun psm => ?_
        split
        · exact shadows_schTxDataWatched cf
        · refine .bind (.atomically (fun _ => rfl) chooseBeacon_fst) fun psm => ?_
          split
          · exact .lift _
          · exact .ret _

theorem shadows_schAsyncRxCheckWatched :
    (schAsyncRxCheckWatched cf).Shadows (schAsyncRxCheck cf) := by
  refine .bind (.atomically (fun _ => rfl) (setStage_fst .outside)) fun pending => ?_
  split <;> exact .lift _

theorem shadows_opSchedulerWatched : (opSchedulerWatched cf).Shadows (opScheduler cf) := by
  refine .bind (.lift _) fun _ => .bind (.lift _) fun _ => ?_
  exact .bind (shadows_schAsyncTxCheckWatched cf) fun _ => shadows_schAsyncRxCheckWatched cf

/-- Every run of the driver has its record. -/
theorem exists_watched_run {c : Config State} {ls : List (Label Irq Call)}
    (h : (machine cf).Run .any (.idle .init) ls c) :
    ∃ c', (watched cf).Run .any (.idle (.init, .start)) ls c' ∧ Machine.Shadowed c' c := by
  refine h.exists_ghost (fun k => ?_) ⟨rfl, Prog.Shadows.ret ()⟩
  cases k with
  | opScheduler => exact shadows_opSchedulerWatched cf
  | ieee80211OpScheduler => exact .lift _
  | startXmit da nextHop => exact .lift _

end Shadows

section Invariant

/-- What the tests of the running check have shown, and the admitted interrupts keep. -/
def Stage.Ready : Stage → State → Prop
  | .outside, _ => True
  | .entered, s => s.psState = false ∧ s.psmTransitToSleep = false
  | .sending .data, s =>
    s.psState = false ∧ s.psmTransitToSleep = false ∧ s.psmState ≠ .atimWindow
  | .sending .atim, s =>
    s.psState = false ∧ s.psmTransitToSleep = false ∧ s.psmState ≠ .txWindow
  | .sending .beacon, _ => False

/-- The device would only stay awake to send beacons. -/
def State.beaconOnly (s : State) : Prop :=
  cf.withSoftBeacon = true ∧ s.offOverride = psOffBcn

instance (s : State) : Decidable (s.beaconOnly cf) := inferInstanceAs (Decidable (_ ∧ _))

/-- The condition on the interrupts: the ATIM window does not start while a data frame is on its
way to the last test, and does not end there for an ATIM frame; the device is not told to sleep
between the first test and the last one. -/
def windowGuard : Guard (State × Watch) Irq Call where
  irq i s :=
    match i, s.1.timer with
    | .timer, some .atimWindowStart => s.2.stage ≠ .sending .data
    | .timer, some .atimWindowEnd => s.1.beaconOnly cf ∨
        (s.2.stage ≠ .sending .atim ∧ (s.2.stage = .outside ∨ s.1.maySleep cf = false))
    | _, _ => True
  call _ _ := True

/-- The fields that the tests read. -/
def State.windowFields (s : State) : OpState × Bool × Bool × Option TimerCallback :=
  (s.psmState, s.psState, s.psmTransitToSleep, s.timer)

structure WatchInv (s : State × Watch) : Prop where
  permitted : ∀ t ∈ s.2.tests, t.Permitted
  ready : s.2.stage.Ready s.1
  /-- Only an IBSS has windows. -/
  quiet : cf.vifType ≠ .adhoc → s.1.timer = none ∧ s.1.psmTransitToSleep = false

/-- Interrupts do not put the device to sleep, and do not write the record. -/
def watchRely : Rely (State × Watch) where
  inv := WatchInv cf
  rel s t := t.2 = s.2 ∧ (s.1.psState = false → t.1.psState = false)
  refl _ := ⟨rfl, id⟩
  trans h h' := ⟨h'.1.trans h.1, h'.2 ∘ h.2⟩

variable {cf}

theorem Stage.Ready.congr {stage : Stage} {s t : State} (h : stage.Ready s)
    (ht : t.windowFields = s.windowFields) : stage.Ready t := by
  simp only [State.windowFields, Prod.mk.injEq] at ht
  obtain ⟨hpsm, hps, htransit, -⟩ := ht
  cases stage with
  | outside => trivial
  | entered => exact ⟨hps.trans h.1, htransit.trans h.2⟩
  | sending kind =>
    cases kind with
    | data => exact ⟨hps.trans h.1, htransit.trans h.2.1, hpsm ▸ h.2.2⟩
    | atim => exact ⟨hps.trans h.1, htransit.trans h.2.1, hpsm ▸ h.2.2⟩
    | beacon => exact h

/-- The fields that the tests read are as they were. -/
theorem WatchInv.frame {s : State × Watch} (h : WatchInv cf s) {t : State}
    (ht : t.windowFields = s.1.windowFields) :
    WatchInv cf (t, s.2) ∧ (watchRely cf).rel s (t, s.2) := by
  have hfields := ht
  simp only [State.windowFields, Prod.mk.injEq] at hfields
  obtain ⟨-, hps, htransit, htimer⟩ := hfields
  refine ⟨⟨h.permitted, h.ready.congr ht, fun hvif => ?_⟩, rfl, fun hs => hps.trans hs⟩
  exact ⟨htimer.trans (h.quiet hvif).1, htransit.trans (h.quiet hvif).2⟩

theorem EraseAction.windowFields {f : State → State} (hf : EraseAction f) (s : State) :
    (f s).windowFields = s.windowFields := by
  cases hf
  case skipErase => unfold Ar9170.skipErase; split <;> rfl
  case eraseIfEmpty => unfold Ar9170.eraseIfEmpty; split <;> rfl
  all_goals rfl

theorem CreateAction.windowFields {f : State → State} (hf : CreateAction cf f) (s : State) :
    (f s).windowFields = s.windowFields := by
  cases hf
  case addAtim => rw [addAtim_eq]; rfl
  case addData => rw [addData_eq]; rfl
  all_goals rfl

theorem SubmitAction.windowFields {f : State → State} (hf : SubmitAction f) (s : State) :
    (f s).windowFields = s.windowFields := by
  cases hf
  case sendData => unfold Ar9170.sendData; split <;> rfl
  case allocBeaconBuffer => unfold Ar9170.allocBeaconBuffer; split <;> rfl
  all_goals rfl

theorem SendAction.windowFields {f : State → State} (hf : SendAction f) (s : State) :
    (f s).windowFields = s.windowFields := by
  cases hf with
  | submit hf => exact hf.windowFields s
  | setQueue kind queue => cases kind <;> rfl

theorem PickAction.windowFields {f : State → State} (hf : PickAction f) (s : State) :
    (f s).windowFields = s.windowFields := by
  cases hf
  case markSelected => unfold Ar9170.markSelected; split <;> rfl
  case takeOut => unfold Ar9170.takeOut; split <;> rfl
  all_goals rfl

theorem TxAction.windowFields {f : State → State} (hf : TxAction f) (s : State) :
    (f s).windowFields = s.windowFields := by
  cases hf
  case mgmt hf =>
    cases hf
    case pick hf => exact hf.windowFields s
    case send hf => exact hf.windowFields s
    all_goals rfl
  all_goals rfl

theorem RxAction.windowFields {f : State → State} (hf : RxAction cf f) (s : State) :
    (f s).windowFields = s.windowFields := by
  cases hf
  case create hf => exact hf.windowFields s
  all_goals rfl

/-- Outside of the transmit check the code may also carry out a transition. -/
theorem CodeAction.quiet {f : State → State} (hf : CodeAction cf f) {s : State}
    (h : s.timer = none ∧ s.psmTransitToSleep = false) :
    (f s).timer = none ∧ (f s).psmTransitToSleep = false := by
  have hsame : (f s).windowFields = s.windowFields →
      (f s).timer = none ∧ (f s).psmTransitToSleep = false := by
    intro hfields
    simp only [State.windowFields, Prod.mk.injEq] at hfields
    exact ⟨hfields.2.2.2.trans h.1, hfields.2.2.1.trans h.2⟩
  cases hf with
  | erase hf => exact hsame (hf.windowFields s)
  | create hf => exact hsame (hf.windowFields s)
  | tx hf => exact hsame (hf.windowFields s)
  | rx hf => exact hsame (hf.windowFields s)
  | power hf =>
    cases hf with
    | fallAsleep => exact h
    | command hf =>
      cases hf with
      | read => exact h
      | setTransitToSleep => exact ⟨h.1, rfl⟩
      | setTransitToWake => exact h
      | clearUpdateMask => exact h

theorem watchInv_start : WatchInv cf (.init, .start) where
  permitted := fun t ht => by cases ht
  ready := trivial
  quiet := fun _ => ⟨rfl, rfl⟩

/-- A handler that keeps the device awake, leaves the transition to sleep alone, and moves to a
window that is not the wrong one for the running check. -/
theorem WatchInv.move {s : State × Watch} (h : WatchInv cf s) {t : State}
    (hps : s.1.psState = false → t.psState = false)
    (htransit : t.psmTransitToSleep = s.1.psmTransitToSleep)
    (hdata : s.2.stage = .sending .data → s.1.psmState ≠ .atimWindow → t.psmState ≠ .atimWindow)
    (hatim : s.2.stage = .sending .atim → s.1.psmState ≠ .txWindow → t.psmState ≠ .txWindow)
    (htimer : cf.vifType ≠ .adhoc → t.timer = none) :
    WatchInv cf (t, s.2) ∧ (watchRely cf).rel s (t, s.2) := by
  refine ⟨⟨h.permitted, ?_, fun hvif => ⟨htimer hvif, htransit.trans (h.quiet hvif).2⟩⟩, rfl, hps⟩
  have hready := h.ready
  show s.2.stage.Ready t
  cases hstage : s.2.stage with
  | outside => trivial
  | entered =>
    rw [hstage] at hready
    exact ⟨hps hready.1, htransit.trans hready.2⟩
  | sending kind =>
    rw [hstage] at hready
    cases kind with
    | data => exact ⟨hps hready.1, htransit.trans hready.2.1, hdata hstage hready.2.2⟩
    | atim => exact ⟨hps hready.1, htransit.trans hready.2.1, hatim hstage hready.2.2⟩
    | beacon => exact hready

theorem readRfState_psState {rfOn : Bool} {s : State} (h : s.psState = false) :
    (readRfState rfOn s).psState = false := by
  simp [readRfState, h]

/-- A station that is not told to sleep is not put to sleep by PRE-TBTT. -/
theorem handlePs_awake {s : State} (h : s.psmTransitToSleep = false) :
    ((handlePs s).psState = false ∨ (handlePs s).psState = s.psState) ∧
      (handlePs s).psmTransitToSleep = false ∧ (handlePs s).psmState = s.psmState ∧
      (handlePs s).timer = s.timer := by
  unfold handlePs
  rw [h, Bool.and_false, if_neg Bool.false_ne_true, if_neg Bool.false_ne_true]
  split
  · exact ⟨.inl rfl, rfl, rfl, rfl⟩
  · exact ⟨.inr rfl, h, rfl, rfl⟩

/-- PRE-TBTT moves an IBSS into a window in which nothing may be sent. -/
theorem WatchInv.rspPreTbtt {s : State × Watch} (h : WatchInv cf s) (rfOn : Bool) :
    WatchInv cf (rspPreTbtt cf rfOn s.1, s.2) ∧
      (watchRely cf).rel s (rspPreTbtt cf rfOn s.1, s.2) := by
  unfold Ar9170.rspPreTbtt
  cases hvif : cf.vifType with
  | station =>
    have hquiet := h.quiet (by rw [hvif]; decide)
    obtain ⟨hps, htransit, hpsm, htimer⟩ := handlePs_awake (s := readRfState rfOn s.1) hquiet.2
    refine h.move (fun hs => ?_) (htransit.trans hquiet.2.symm) (fun _ hs => hpsm ▸ hs)
      (fun _ hs => hpsm ▸ hs) (fun _ => htimer.trans hquiet.1)
    rcases hps with hps | hps
    · exact hps
    · exact hps.trans (readRfState_psState hs)
  | ap =>
    exact h.move readRfState_psState rfl (fun _ hs => hs) (fun _ hs => hs)
      (fun hne => (h.quiet hne).1)
  | adhoc =>
    have hclear : ∀ u : State, (clearWaitFlags u).psState = u.psState ∧
        (clearWaitFlags u).psmTransitToSleep = u.psmTransitToSleep ∧
        (clearWaitFlags u).psmState = u.psmState := by
      intro u
      unfold clearWaitFlags
      rw [settle_eq]
      exact ⟨rfl, rfl, rfl⟩
    dsimp only
    split
    · obtain ⟨hps, htransit, hpsm⟩ := hclear (startBeaconInterval (readRfState rfOn s.1))
      exact h.move (fun hs => hps.trans (readRfState_psState hs)) htransit
        (fun _ _ hw => by rw [hpsm] at hw; cases hw) (fun _ _ hw => by rw [hpsm] at hw; cases hw)
        (fun hne => absurd hvif hne)
    · obtain ⟨hps, htransit, hpsm⟩ := hclear (readRfState rfOn s.1)
      exact h.move (fun hs => hps.trans (readRfState_psState hs)) htransit
        (fun _ hs => hpsm ▸ hs) (fun _ hs => hpsm ▸ hs) (fun hne => absurd hvif hne)

theorem psUpdate_psmState (cf : Conf) (s : State) :
    (psUpdate cf s).psmState = s.psmState ∧ (psUpdate cf s).psState = s.psState ∧
      (psUpdate cf s).timer = s.timer := by
  rcases psUpdate_cases cf s with hu | ⟨-, hu⟩ | ⟨-, hu⟩ <;> rw [hu] <;> exact ⟨rfl, rfl, rfl⟩

/-- The device is not told to sleep if there is a reason to stay awake. -/
theorem psUpdate_psmTransitToSleep {s : State} (h : s.maySleep cf = false) :
    (psUpdate cf s).psmTransitToSleep = s.psmTransitToSleep := by
  unfold psUpdate psmSchedulePowersave
  rw [h, if_neg Bool.false_ne_true, if_neg Bool.false_ne_true]
  split <;> rfl

theorem WatchInv.psmAtimWindowEnd {s : State × Watch} (h : WatchInv cf s)
    (hvif : cf.vifType = .adhoc)
    (hG : s.1.beaconOnly cf ∨
      (s.2.stage ≠ .sending .atim ∧ (s.2.stage = .outside ∨ s.1.maySleep cf = false))) :
    WatchInv cf (psmAtimWindowEnd cf { s.1 with timer := none }, s.2) ∧
      (watchRely cf).rel s (psmAtimWindowEnd cf { s.1 with timer := none }, s.2) := by
  have hadhoc : cf.vifType ≠ .adhoc → False := fun hne => hne hvif
  unfold Ar9170.psmAtimWindowEnd
  by_cases hbeacon : s.1.beaconOnly cf
  · rw [if_pos (by exact hbeacon)]
    exact h.move (fun hs => hs) rfl (fun _ _ hw => by cases hw) (fun _ _ hw => by cases hw)
      (fun hne => (hadhoc hne).elim)
  · rw [if_neg (by exact hbeacon)]
    obtain ⟨hpsm, hps, -⟩ := psUpdate_psmState cf
      { s.1 with timer := none, psmState := .txWindow }
    rcases hG with hG | ⟨hatim, hout | hstay⟩
    · exact absurd hG hbeacon
    · refine ⟨⟨h.permitted, ?_, fun hne => (hadhoc hne).elim⟩, rfl, fun hs => hps.trans hs⟩
      show s.2.stage.Ready _
      rw [hout]
      trivial
    · have htransit := psUpdate_psmTransitToSleep
        (s := { s.1 with timer := none, psmState := .txWindow }) hstay
      exact h.move (fun hs => hps.trans hs) htransit (fun _ _ hw => by rw [hpsm] at hw; cases hw)
        (fun hs => absurd hs hatim) (fun hne => (hadhoc hne).elim)

theorem WatchInv.timerFires {s : State × Watch} (h : WatchInv cf s)
    (hG : (windowGuard cf).irq .timer s) {t : State} (ht : timerFires cf s.1 = some t) :
    WatchInv cf (t, s.2) ∧ (watchRely cf).rel s (t, s.2) := by
  obtain ⟨callback, hcallback, rfl⟩ := Option.map_eq_some_iff.1 ht
  have hvif : cf.vifType = .adhoc := by
    by_contra hne
    rw [(h.quiet hne).1] at hcallback
    cases hcallback
  have hadhoc : cf.vifType ≠ .adhoc → False := fun hne => hne hvif
  simp only [windowGuard, hcallback] at hG
  cases callback with
  | atimWindowStart =>
    refine h.move (fun hs => hs) rfl (fun hs => absurd hs hG) (fun _ hs => ?_)
      (fun hne => (hadhoc hne).elim)
    dsimp only [psmAtimWindowStart]
    split
    · nofun
    · exact hs
  | atimWindowEnd => exact h.psmAtimWindowEnd hvif hG
  | softBeaconTx =>
    dsimp only [psmSoftBeaconTx]
    split <;> exact h.move (fun hs => hs) rfl (fun _ hs => hs) (fun _ hs => hs)
      (fun hne => (hadhoc hne).elim)

theorem txStatus_windowFields (st : TxStatus) (s : State) :
    (txStatus cf st s).windowFields = s.windowFields := by
  unfold txStatus
  split
  · rfl
  · split
    · split
      · rw [settle_eq]
        dsimp only [handleATIMStatusRsp]
        rw [creditLastAtim_eq]
        rfl
      · rfl
    · rw [settle_eq]
      rfl

theorem watchInv_irq (i : Irq) (s s' : State × Watch) (h : WatchInv cf s)
    (hG : (windowGuard cf).irq i s) (hi : (watched cf).irq i s = some s') :
    WatchInv cf s' ∧ (watchRely cf).rel s s' := by
  obtain ⟨t, ht, rfl⟩ := Option.map_eq_some_iff.1 hi
  cases i with
  | preTbtt rfOn =>
    cases ht
    exact h.rspPreTbtt rfOn
  | timer => exact h.timerFires hG ht
  | txStatus st =>
    obtain ⟨-, rfl⟩ := irq_txStatus_eq_some ht
    exact h.frame (txStatus_windowFields st _)
  | txComp =>
    cases ht
    refine h.frame ?_
    unfold txCompUnlock
    split <;> rfl
  | bulkOutDone =>
    cases ht
    exact h.frame rfl
  | beaconConfig =>
    cases ht
    refine h.frame ?_
    unfold rspBeaconConfig
    split <;> rfl
  | rxAtim mgmt ok =>
    cases ht
    refine h.frame ?_
    unfold scheduleHandleMpdu
    split <;> rfl
  | rxOther ok =>
    cases ht
    refine h.frame ?_
    unfold scheduleHandleMpdu
    split <;> rfl
  | env e =>
    cases ht
    exact h.frame rfl

section Code

variable {s : State × Watch}

/-- Code of the transmit check that makes none of the tests. -/
theorem sat_lift_tx {α : Type} {p : Prog State α} (hp : Acts TxAction p) {stage : Stage}
    (hs : s.2.stage = stage) :
    Sat (watchRely cf) (p.lift Watch) (fun _ t => t.2.stage = stage) s := by
  refine hp.lift.sat ?_ (fun t u ht htu => htu.1 ▸ ht) hs
  rintro _ t ⟨g, hg, rfl⟩ ht hstage
  exact ⟨(WatchInv.frame ht (hg.windowFields t.1)).1, hstage⟩

/-- Code that runs outside of the transmit check. -/
theorem sat_lift_code {α : Type} {p : Prog State α} (hp : Acts (CodeAction cf) p)
    (hs : s.2.stage = .outside) :
    Sat (watchRely cf) (p.lift Watch) (fun _ t => t.2.stage = .outside) s := by
  refine hp.lift.sat ?_ (fun t u ht htu => htu.1 ▸ ht) hs
  rintro _ t ⟨g, hg, rfl⟩ ht hstage
  refine ⟨⟨ht.permitted, ?_, fun hvif => hg.quiet (ht.quiet hvif)⟩, hstage⟩
  show t.2.stage.Ready _
  rw [hstage]
  trivial

theorem WatchInv.setStage (h : WatchInv cf s) {stage : Stage} (hready : stage.Ready s.1) :
    WatchInv cf (Ar9170.setStage stage s) where
  permitted := h.permitted
  ready := hready
  quiet := h.quiet

/-- The last test is right if it finds the window of the frame while the device stays awake. -/
theorem WatchInv.passTest (h : WatchInv cf s) {kind : TxKind} (hpsm : s.1.psmState = kind.window)
    (hps : s.1.psState = false) (htransit : s.1.psmTransitToSleep = false) :
    WatchInv cf (Ar9170.passTest kind s) where
  permitted := by
    intro t ht
    rcases List.mem_append.1 ht with ht | ht
    · exact h.permitted t ht
    · rw [List.mem_singleton.1 ht]
      exact ⟨hpsm, hps, htransit⟩
  ready := trivial
  quiet := h.quiet

/-- While a frame of the data or the ATIM queue is on its way, a window in which frames are sent
is the one for the frame. -/
theorem WatchInv.window (h : WatchInv cf s) {kind : TxKind} (hs : s.2.stage = .sending kind)
    (hpsm : s.1.psmState = .txWindow ∨ s.1.psmState = .atimWindow) :
    s.1.psmState = kind.window ∧ s.1.psState = false ∧ s.1.psmTransitToSleep = false := by
  have hready := h.ready
  rw [hs] at hready
  cases kind with
  | data => exact ⟨hpsm.resolve_right hready.2.2, hready.1, hready.2.1⟩
  | atim => exact ⟨hpsm.resolve_left hready.2.2, hready.1, hready.2.1⟩
  | beacon => exact hready.elim

theorem acts_read {α : Type} (g : State → α) : Acts TxAction (Prog.read g) :=
  .read (.mgmt (.pick .read))

theorem acts_notWaiting_tx : Acts TxAction notWaiting :=
  acts_notWaiting (.mgmt (.pick .read))

/-- Nothing is left to test. -/
theorem sat_lift_tx_true {p : Prog State Unit} (hp : Acts TxAction p) :
    Sat (watchRely cf) (p.lift Watch) (fun _ _ => True) s :=
  (sat_lift_tx hp rfl).mono fun _ _ _ _ => trivial

/-- The two tests of `ar9170_async_tx`: the frame is submitted in its window. -/
theorem sat_asyncTxWatched {kind : TxKind} (hinv : WatchInv cf s)
    (hs : s.2.stage = .sending kind) :
    Sat (watchRely cf) (asyncTxWatched cf kind) (fun _ _ => True) s := by
  refine (sat_lift_tx (acts_read _) hs).seq hinv fun lock t ht hst => ?_
  split
  · exact Sat.ret_true _
  · refine (sat_lift_tx (acts_read _) hst).seq ht fun txQueue u hu hsu => ?_
    cases txQueue with
    | nil => exact Sat.ret_true _
    | cons nextSkb rest =>
      refine (sat_lift_tx (acts_read _) hsu).seq hu fun asleep v hv hsv => ?_
      refine Sat.atomically_bind fun w hvw hw => ?_
      have hsw : w.2.stage = .sending kind := hvw.1 ▸ hsv
      have hfirst : WatchInv cf (firstTest kind asleep w) := by
        unfold firstTest
        split
        next htest =>
          obtain ⟨hpsm, hps, htransit⟩ := hw.window hsw (.inl htest.2)
          exact hw.passTest hpsm hps htransit
        next => exact hw
      refine ⟨hfirst, Sat.atomically_bind fun x hwx hx => ?_⟩
      have hsecond : WatchInv cf (secondTest kind asleep w.1.psmState x) := by
        unfold secondTest
        split
        next htest =>
          have hsx : x.2.stage = .sending kind := by
            rw [hwx.1, firstTest, if_neg fun h => htest.2.1 h.2]
            exact hsw
          obtain ⟨hpsm, hps, htransit⟩ := hx.window hsx (.inr htest.2.2)
          exact hx.passTest hpsm hps htransit
        next => exact hx.setStage trivial
      refine ⟨hsecond, ?_⟩
      split
      · exact Sat.ret_true _
      · refine sat_lift_tx_true (.bind (.modify (.mgmt (.send (.setQueue _ _)))) fun _ => ?_)
        refine .bind (Acts.mono (acts_opTx kind _) fun _ hf => .mgmt (.send (.submit hf)))
          fun _ => ?_
        exact .modify (.mgmt (.send (.setQueue _ _)))

theorem sat_psmAsyncTxDataWatched (hinv : WatchInv cf s) (hs : s.2.stage = .sending .data) :
    Sat (watchRely cf) (psmAsyncTxDataWatched cf) (fun _ _ => True) s := by
  refine (sat_lift_tx (acts_read _) hs).seq hinv fun psm t ht hst => ?_
  split
  · exact Sat.ret_true _
  · refine (sat_lift_tx (acts_read _) hst).seq ht fun psm u hu hsu => ?_
    split
    · refine (sat_lift_tx acts_notWaiting_tx hsu).seq hu fun free v hv hsv => ?_
      split
      · have hpick : Acts TxAction psmCanSendFirstPkt :=
          acts_psmCanSendFirstPkt (.mgmt (.pick .read)) (.mgmt (.pick (.markSelected _)))
            fun _ _ => .mgmt (.pick (.takeOut _ _))
        refine (sat_lift_tx hpick hsv).seq hv fun queue w hw hsw => ?_
        cases queue with
        | nil => exact Sat.ret_true _
        | cons f rest =>
          refine (sat_lift_tx (.modify .startTxDataWait) hsw).seq hw fun _ x hx hsx => ?_
          refine (sat_lift_tx (.modify (.handOver f rest)) hsx).seq hx fun _ y hy hsy => ?_
          exact sat_asyncTxWatched hy hsy
      · exact Sat.ret_true _
    · exact Sat.ret_true _

theorem sat_psmAsyncTxMgmtWatched (hinv : WatchInv cf s) (hs : s.2.stage = .sending .atim) :
    Sat (watchRely cf) (psmAsyncTxMgmtWatched cf) (fun _ _ => True) s := by
  have hpick : Acts TxAction psmCanSendFirstAtim :=
    Acts.mono acts_psmCanSendFirstAtim fun _ hf => .mgmt (.pick hf)
  refine (sat_lift_tx hpick hs).seq hinv fun queue t ht hst => ?_
  cases queue with
  | nil => exact Sat.ret_true _
  | cons atim rest =>
    refine (sat_lift_tx (.modify (.mgmt (.send (.setQueue _ _)))) hst).seq ht fun _ u hu hsu => ?_
    refine (sat_lift_tx acts_notWaiting_tx hsu).seq hu fun free v hv hsv => ?_
    split
    · refine (sat_lift_tx (.modify (.mgmt .startTxAtimWait)) hsv).seq hv fun _ w hw hsw => ?_
      have hsave : Acts TxAction (saveLastAtim cf atim) :=
        acts_saveLastAtim cf (fun _ => .mgmt (.setLastAtimDA _)) (fun _ => .mgmt (.setLastAtimA3 _))
          atim
      refine (sat_lift_tx hsave hsw).seq hw fun _ x hx hsx => ?_
      refine (sat_asyncTxWatched hx hsx).seq hx fun _ y hy _ => ?_
      refine (sat_lift_tx (acts_read _) rfl).seq hy fun override z hz _ => ?_
      exact sat_lift_tx_true (.modify (.mgmt (.setOffOverride _)))
    · exact Sat.ret_true _

theorem sat_schTxAtimWatched (hinv : WatchInv cf s) (hs : s.2.stage = .sending .atim) :
    Sat (watchRely cf) (schTxAtimWatched cf) (fun _ _ => True) s := by
  refine (sat_lift_tx (acts_read _) hs).seq hinv fun asleep t ht hst => ?_
  split
  · exact Sat.ret_true _
  · refine (sat_lift_tx (acts_read _) hst).seq ht fun atims u hu hsu => ?_
    split
    · exact Sat.ret_true _
    · refine (sat_lift_tx acts_notWaiting_tx hsu).seq hu fun free v hv hsv => ?_
      split
      · exact sat_psmAsyncTxMgmtWatched hv hsv
      · exact Sat.ret_true _

theorem sat_schTxDataWatched (hinv : WatchInv cf s) (hs : s.2.stage = .sending .data) :
    Sat (watchRely cf) (schTxDataWatched cf) (fun _ _ => True) s := by
  refine (sat_lift_tx (acts_read _) hs).seq hinv fun asleep t ht hst => ?_
  split
  · exact Sat.ret_true _
  · refine (sat_lift_tx (acts_read _) hst).seq ht fun pkts u hu hsu => ?_
    split
    · exact Sat.ret_true _
    · refine (sat_lift_tx acts_notWaiting_tx hsu).seq hu fun free v hv hsv => ?_
      split
      · split
        · exact sat_psmAsyncTxDataWatched hv hsv
        · exact sat_asyncTxWatched hv hsv
      · exact Sat.ret_true _

theorem WatchInv.entered (h : WatchInv cf s) (hs : s.2.stage = .entered) :
    s.1.psState = false ∧ s.1.psmTransitToSleep = false := by
  have hready := h.ready
  rwa [hs] at hready

theorem sat_schTxSoftBeaconWatched (hs : s.2.stage = .entered) :
    Sat (watchRely cf)
      (Prog.atomically (fun s => s.1.psmState) chooseBeacon >>= fun psm =>
        if psm = .softBcnWindow then (schTxSoftBeacon cf).lift Watch else pure ())
      (fun _ _ => True) s := by
  refine Sat.atomically_bind fun t hst ht => ?_
  have hentered := ht.entered (hst.1 ▸ hs)
  have hpass : WatchInv cf (chooseBeacon t) := by
    unfold chooseBeacon
    split
    next hpsm => exact ht.passTest hpsm hentered.1 hentered.2
    next => exact ht
  refine ⟨hpass, ?_⟩
  split
  · exact sat_lift_tx_true
      (Acts.mono (acts_schTxSoftBeacon cf) fun _ hf => .mgmt (.send (.submit hf)))
  · exact Sat.ret_true _

theorem sat_schAsyncTxCheckWatched :
    Sat (watchRely cf) (schAsyncTxCheckWatched cf) (fun _ _ => True) s := by
  refine Sat.lift_read_bind fun t _ ht => ?_
  refine Sat.atomically_bind fun u htu hu => ?_
  have henter : WatchInv cf (enter t.1.psState u) := by
    unfold enter
    split
    next => exact hu
    next hawake =>
      rw [Bool.or_eq_true, not_or, Bool.not_eq_true, Bool.not_eq_true] at hawake
      exact hu.setStage ⟨htu.2 hawake.1, hawake.2⟩
  refine ⟨henter, ?_⟩
  split
  · exact Sat.ret_true _
  next hawake =>
    have hstage : (enter t.1.psState u).2.stage = .entered := by
      rw [enter, if_neg hawake]
      rfl
    refine (sat_lift_tx (acts_read _) hstage).seq henter fun pkts v hv hsv => ?_
    refine (sat_lift_tx (acts_read _) hsv).seq hv fun atims w hw hsw => ?_
    split
    · exact Sat.ret_true _
    · refine Sat.atomically_bind fun x hwx hx => ?_
      have hsx : x.2.stage = .entered := hwx.1 ▸ hsw
      have hawake := hx.entered hsx
      by_cases hatim : x.1.psmState = .atimWindow
      · have hchoose : choose .atim x = Ar9170.setStage (.sending .atim) x := if_pos hatim
        have hinv' : WatchInv cf (Ar9170.setStage (.sending .atim) x) :=
          hx.setStage ⟨hawake.1, hawake.2, by rw [hatim]; nofun⟩
        rw [hchoose, if_pos hatim]
        exact ⟨hinv', sat_schTxAtimWatched hinv' rfl⟩
      · have hchoose : choose .atim x = x := if_neg hatim
        rw [hchoose, if_neg hatim]
        refine ⟨hx, Sat.atomically_bind fun y hxy hy => ?_⟩
        have hsy : y.2.stage = .entered := hxy.1 ▸ hsx
        have hawake := hy.entered hsy
        by_cases hdata : y.1.psmState = .txWindow
        · have hchoose : choose .data y = Ar9170.setStage (.sending .data) y := if_pos hdata
          have hinv' : WatchInv cf (Ar9170.setStage (.sending .data) y) :=
            hy.setStage ⟨hawake.1, hawake.2, by rw [hdata]; nofun⟩
          rw [hchoose, if_pos hdata]
          exact ⟨hinv', sat_schTxDataWatched hinv' rfl⟩
        · have hchoose : choose .data y = y := if_neg hdata
          rw [hchoose, if_neg hdata]
          exact ⟨hy, sat_schTxSoftBeaconWatched hsy⟩

theorem sat_schAsyncRxCheckWatched (s : State × Watch) :
    Sat (watchRely cf) (schAsyncRxCheckWatched cf) (fun _ t => t.2.stage = .outside) s := by
  refine Sat.atomically_bind fun t _ ht => ⟨ht.setStage trivial, sat_lift_code ?_ rfl⟩
  exact Acts.mono ((acts_schAsyncRxCheck cf).2 t.1) fun _ hf => .rx hf

theorem sat_call_watched (k : Call) (hinv : WatchInv cf s) (hs : s.2.stage = .outside) :
    Sat (watchRely cf) ((watched cf).body k) (fun _ t => t.2.stage = .outside) s := by
  cases k with
  | opScheduler =>
    have herase : Acts (CodeAction cf) schEraseNodesCheck :=
      Acts.mono acts_schEraseNodesCheck fun _ => .erase
    have hpower : Acts (CodeAction cf) schPowersaveCheck :=
      Acts.mono acts_schPowersaveCheck fun _ => .power
    refine (sat_lift_code herase hs).seq hinv fun _ t ht hst => ?_
    refine (sat_lift_code hpower hst).seq ht fun _ u hu _ => ?_
    refine sat_schAsyncTxCheckWatched.seq hu fun _ v _ _ => ?_
    exact sat_schAsyncRxCheckWatched v
  | ieee80211OpScheduler =>
    exact sat_lift_code (Acts.mono (acts_ieee80211OpScheduler cf) fun _ => .create) hs
  | startXmit da nextHop =>
    exact sat_lift_code (Acts.mono (acts_startXmit cf da nextHop) fun _ => .create) hs

end Code

theorem watchInv_of_run {c : Config (State × Watch)} {ls : List (Label Irq Call)}
    (h : (watched cf).Run (windowGuard cf) (.idle (.init, .start)) ls c) :
    WatchInv cf c.state :=
  (Machine.Run.sound (r := watchRely cf) (Q := fun s => s.2.stage = .outside)
    (c := .idle (.init, .start)) watchInv_irq (fun k _ hinv hs _ => sat_call_watched k hinv hs)
    watchInv_start (fun _ hst _ => congrArg Watch.stage hst.1) h).1

end Invariant

section SoftBeacon

/-- A soft beacon is due, and nothing stands in its way: the device is awake and is not told to
sleep, and the transmit path and the allocations are free. -/
structure State.SoftBeaconDue (s : State) : Prop where
  psmState : s.psmState = .softBcnWindow
  flag : s.sendSoftBcnFlag = true
  awake : s.psState = false
  transit : s.psmTransitToSleep = false
  stays : ¬ s.sleepPending
  lock : s.txAsyncLock = false
  env : s.env = ⟨true, true, true, true⟩

/-- The next step of the scheduler submits a beacon and nothing else. -/
def State.SubmitsBeacon (s : State) : Prop :=
  ∃ f, ((opScheduler cf).eval s).2.sent = s.sent ++ [⟨.beacon, f, s.interval⟩]

/-- The fields on which the transmission of a soft beacon depends. -/
def State.beaconFields (s : State) :
    OpState × Bool × Bool × Bool × Bool × Env × List Transmission × Nat × List SkBuff ×
      List SkBuff :=
  (s.psmState, s.sendSoftBcnFlag, s.psState, s.psmTransitToSleep, s.txAsyncLock, s.env, s.sent,
    s.interval, s.txPendingPkts, s.txPendingAtims)

theorem EraseAction.beaconFields {f : State → State} (hf : EraseAction f) (s : State) :
    (f s).beaconFields = s.beaconFields ∧ (f s).updateMask = s.updateMask := by
  cases hf
  case skipErase => unfold Ar9170.skipErase; split <;> exact ⟨rfl, rfl⟩
  case eraseIfEmpty => unfold Ar9170.eraseIfEmpty; split <;> exact ⟨rfl, rfl⟩
  all_goals exact ⟨rfl, rfl⟩

/-- A transition that is not to sleep leaves the transmission of beacons alone. -/
theorem powersaveChecked_beaconFields {s : State} (h : s.SoftBeaconDue) :
    s.powersaveChecked.beaconFields = s.beaconFields := by
  by_cases hp : s.transitionPending
  · rw [powersaveChecked_of_wake hp h.stays (by rw [h.env])]
    unfold clearTransit
    rw [h.transit, if_neg Bool.false_ne_true]
    split <;> rfl
  · have hp' : ¬ s.updateMask &&& psUpdateTransitionFlag ≠ 0 := hp
    unfold State.powersaveChecked schPowersaveCheck
    simp only [Prog.read_bind, Prog.eval_act, id_eq, if_neg hp']
    rfl

theorem RxAction.sent {f : State → State} (hf : RxAction cf f) (s : State) :
    (f s).sent = s.sent := by
  cases hf
  case create hf =>
    cases hf
    case addAtim => rw [addAtim_eq]
    case addData => rw [addData_eq]
    all_goals rfl
  all_goals rfl

/-- The branch for soft beacons, when it is reached. -/
theorem eval_schTxSoftBeacon {s : State} (hflag : s.sendSoftBcnFlag = true)
    (hlock : s.txAsyncLock = false) (henv : s.env = ⟨true, true, true, true⟩) :
    ∃ f, ((schTxSoftBeacon cf).eval s).2.sent = s.sent ++ [⟨.beacon, f, s.interval⟩] := by
  refine ⟨⟨s.nextSkb, MacAddr.broadcast, cf.vifBssid⟩, ?_⟩
  unfold schTxSoftBeacon asyncTxSoftBeacon opTx usbTx writeData
  simp [hflag, hlock, henv, allocBeaconBuffer, observe, setTxAsyncLock, sendData]
  rfl

/-- The transmit check when a soft beacon is due: it depends on the two queues. -/
theorem eval_schAsyncTxCheck_softBeacon {s : State} (hpsm : s.psmState = .softBcnWindow)
    (hps : s.psState = false) (htransit : s.psmTransitToSleep = false) :
    (schAsyncTxCheck cf).eval s =
      if s.txPendingPkts = [] ∧ s.txPendingAtims = [] then ((), s)
      else (schTxSoftBeacon cf).eval s := by
  unfold schAsyncTxCheck
  simp only [Prog.read_bind, Prog.eval_act, id_eq, hps, htransit, Bool.or_self,
    Bool.false_eq_true, if_false]
  split
  · rfl
  · simp [hpsm]

theorem State.SoftBeaconDue.congr {s t : State} (h : s.SoftBeaconDue)
    (hfields : t.beaconFields = s.beaconFields) (hmask : t.updateMask = s.updateMask) :
    t.SoftBeaconDue := by
  simp only [State.beaconFields, Prod.mk.injEq] at hfields
  obtain ⟨hpsm, hflag, hps, htransit, hlock, henv, -⟩ := hfields
  constructor
  case psmState => exact hpsm.trans h.psmState
  case flag => exact hflag.trans h.flag
  case awake => exact hps.trans h.awake
  case transit => exact htransit.trans h.transit
  case stays =>
    have hstays := h.stays
    rwa [State.sleepPending, State.transitionPending, ← hmask] at hstays
  case lock => exact hlock.trans h.lock
  case env => exact henv.trans h.env

/-- The slip: the beacon is submitted exactly if something else is pending. -/
theorem submitsBeacon_iff {s : State} (h : s.SoftBeaconDue) :
    s.SubmitsBeacon cf ↔ s.txPendingPkts ≠ [] ∨ s.txPendingAtims ≠ [] := by
  have herase := Acts.eval (I := fun t => t.beaconFields = s.beaconFields ∧
      t.updateMask = s.updateMask) (s := s) acts_schEraseNodesCheck
    (fun f t hf ht => ⟨(hf.beaconFields t).1.trans ht.1, (hf.beaconFields t).2.trans ht.2⟩)
    ⟨rfl, rfl⟩
  have hpower := (powersaveChecked_beaconFields (h.congr herase.1 herase.2)).trans herase.1
  generalize hs₂ : (schEraseNodesCheck.eval s).2.powersaveChecked = s₂ at hpower
  have hrx : ((opScheduler cf).eval s).2.sent = ((schAsyncTxCheck cf).eval s₂).2.sent := by
    unfold opScheduler
    rw [Prog.eval_bind, Prog.eval_bind, Prog.eval_bind]
    rw [show (schPowersaveCheck.eval (schEraseNodesCheck.eval s).2).2 = s₂ from hs₂]
    exact Acts.eval (I := fun t => t.sent = ((schAsyncTxCheck cf).eval s₂).2.sent)
      (acts_schAsyncRxCheck cf) (fun _ t hf ht => (RxAction.sent cf hf t).trans ht) rfl
  have hdue := hpower
  simp only [State.beaconFields, Prod.mk.injEq] at hdue
  obtain ⟨hpsm, hflag, hps, htransit, hlock, henv, hsent, hinterval, hpkts, hatims⟩ := hdue
  rw [State.SubmitsBeacon, hrx, eval_schAsyncTxCheck_softBeacon cf (hpsm.trans h.psmState)
    (hps.trans h.awake) (htransit.trans h.transit), hpkts, hatims]
  by_cases hempty : s.txPendingPkts = [] ∧ s.txPendingAtims = []
  · rw [if_pos hempty, hsent]
    constructor
    · rintro ⟨f, hf⟩
      exact absurd (List.append_right_eq_self.1 hf.symm) (List.cons_ne_nil _ _)
    · rintro (hne | hne)
      · exact absurd hempty.1 hne
      · exact absurd hempty.2 hne
  · rw [if_neg hempty]
    obtain ⟨f, hf⟩ := eval_schTxSoftBeacon cf (hflag.trans h.flag) (hlock.trans h.lock)
      (henv.trans h.env)
    rw [hsent, hinterval] at hf
    exact iff_of_true ⟨f, hf⟩ (not_and_or.1 hempty)

end SoftBeacon

/-- In every run in which the window does not move against the running check, every last test
before a submission finds the window of the frame, with the device awake and staying so; and
whenever a soft beacon is due, the next step of the scheduler submits it exactly if a data or an
ATIM frame is pending. -/
theorem windowDiscipline_of_run {c : Config (State × Watch)} {ls : List (Label Irq Call)}
    (h : (watched cf).Run (windowGuard cf) (.idle (.init, .start)) ls c) :
    (∀ t ∈ c.state.2.tests, t.Permitted) ∧
      (c.state.1.SoftBeaconDue → (c.state.1.SubmitsBeacon cf ↔
        c.state.1.txPendingPkts ≠ [] ∨ c.state.1.txPendingAtims ≠ [])) :=
  ⟨(watchInv_of_run h).permitted, submitsBeacon_iff cf⟩

section Runs

instance (s : State × Watch) (l : Label Irq Call) : Decidable ((windowGuard cf).admits s l) :=
  match l with
  | .irq .timer =>
    match h : s.1.timer with
    | some .atimWindowStart =>
      decidable_of_iff (s.2.stage ≠ .sending .data) (by
        rw [Guard.admits, windowGuard]
        simp only [h])
    | some .atimWindowEnd =>
      decidable_of_iff (s.1.beaconOnly cf ∨
        (s.2.stage ≠ .sending .atim ∧ (s.2.stage = .outside ∨ s.1.maySleep cf = false))) (by
        rw [Guard.admits, windowGuard]
        simp only [h])
    | some .softBeaconTx | none => .isTrue (by
        rw [Guard.admits, windowGuard]
        simp only [h])
  | .irq (.preTbtt _) | .irq (.txStatus _) | .irq .txComp | .irq .bulkOutDone
  | .irq .beaconConfig | .irq (.rxAtim _ _) | .irq (.rxOther _) | .irq (.env _)
  | .main | .call _ => .isTrue trivial

/-- A station that also sends beacons of its own. -/
def Conf.softBeacon : Conf :=
  { Conf.std with withSoftBeacon := true }

/-- A packet is announced, and the ATIM window starts. -/
def packetAnnounced : List (Label Irq Call) :=
  [.irq (.preTbtt true)] ++ callFor (.startXmit 0xa 0xa) 1 ++ callFor .ieee80211OpScheduler 5 ++
    callFor .opScheduler 13 ++ [.irq .timer]

theorem windowDiscipline_of_run_packetAnnounced :
    ∃ c, (watched .softBeacon).Run (windowGuard .softBeacon) (.idle (.init, .start))
        (packetAnnounced ++ callFor .opScheduler 36) c ∧
      c.state.2.tests = [⟨.atim, .atimWindow, false, false⟩] ∧
      ∀ t ∈ c.state.2.tests, t.Permitted := by
  obtain ⟨c, hrun, htests⟩ := Machine.exists_run_of_exec (watched .softBeacon)
    (windowGuard .softBeacon) (.idle (.init, .start)) (packetAnnounced ++ callFor .opScheduler 36)
    (fun s => s.2.tests = [⟨.atim, .atimWindow, false, false⟩]) (by decide +kernel)
    (by decide +kernel)
  exact ⟨c, hrun, htests, (windowDiscipline_of_run .softBeacon hrun).1⟩

/-- The ATIM window ends while an ATIM frame is on its way to the last test. -/
def windowEndsUnderWay : List (Label Irq Call) :=
  packetAnnounced ++ callFor .opScheduler 10 ++ [.irq .timer] ++ List.replicate 26 .main

/-- An interval without packets, up to the window of the soft beacons. -/
def beaconsOnly : List (Label Irq Call) :=
  [.irq (.preTbtt true), .irq .beaconConfig, .irq .timer, .irq .timer, .irq .timer]

/-- An ATIM frame is submitted in the TX window, and a soft beacon that is due is not
submitted. -/
theorem not_disciplined_windowEndsUnderWay :
    (∃ c, (watched .softBeacon).Run .any (.idle (.init, .start)) windowEndsUnderWay c ∧
      c.state.1.sent.length = 1 ∧ ∃ t ∈ c.state.2.tests, t.kind = .atim ∧ ¬ t.Permitted) ∧
    ∃ c, (watched .softBeacon).Run .any (.idle (.init, .start)) beaconsOnly c ∧
      c.state.1.SoftBeaconDue ∧ ¬ c.state.1.SubmitsBeacon .softBeacon := by
  constructor
  · obtain ⟨c, hrun, hsent, htests⟩ := Machine.exists_run_of_exec (watched .softBeacon)
      Guard.any (.idle (.init, .start)) windowEndsUnderWay
      (fun s => s.1.sent.length = 1 ∧ s.2.tests = [⟨.atim, .txWindow, false, false⟩])
      (by decide +kernel) (by decide +kernel)
    refine ⟨c, hrun, hsent, ⟨.atim, .txWindow, false, false⟩, ?_, rfl, by decide⟩
    rw [htests]
    exact List.mem_cons_self
  · obtain ⟨c, hrun, hfields, hmask, hpkts, hatims⟩ := Machine.exists_run_of_exec
      (watched .softBeacon) Guard.any (.idle (.init, .start)) beaconsOnly
      (fun s => (s.1.psmState, s.1.sendSoftBcnFlag, s.1.psState, s.1.psmTransitToSleep,
          s.1.txAsyncLock, s.1.env) =
            (OpState.softBcnWindow, true, false, false, false, ⟨true, true, true, true⟩) ∧
        s.1.updateMask = 0 ∧ s.1.txPendingPkts = [] ∧ s.1.txPendingAtims = [])
      (by decide +kernel) (by decide +kernel)
    simp only [Prod.mk.injEq] at hfields
    obtain ⟨hpsm, hflag, hps, htransit, hlock, henv⟩ := hfields
    have hdue : c.state.1.SoftBeaconDue := by
      refine ⟨hpsm, hflag, hps, htransit, ?_, hlock, henv⟩
      simp [State.sleepPending, State.transitionPending, hmask]
    refine ⟨c, hrun, hdue, fun hsubmits => ?_⟩
    rcases (submitsBeacon_iff .softBeacon hdue).1 hsubmits with hne | hne
    · exact hne hpkts
    · exact hne hatims

end Runs

end Calipso.Ar9170
