import Calipso.Ar9170.Psm.Power

/-!
# When the station may doze

A sleep request is posted at the end of the ATIM window, by a timer interrupt,
and carried out later by the scheduler. Nothing withdraws it: a PRE-TBTT that
finds it still pending starts the next beacon interval, and the scheduler then
powers the RF down inside it. While every PRE-TBTT finds no pending request the
station is asleep in the TX window only, and each request is carried out in the
interval in which it was posted.
-/

namespace Calipso.Ar9170

open Interrupt

/-- Every request that was carried out had been posted in the same interval. -/
def sleepsInTime (trace : List Obs) : Prop :=
  ∀ k t, .sleepDone k :: t <:+ trace → .sleepPosted k ∈ t

/-- The RF is off in the TX window only, and no sleep request outlives its
beacon interval. -/
def State.dozeSafe (s : State) : Prop :=
  (s.psState = true → s.psmState = .txWindow) ∧ sleepsInTime s.trace

/-- The device reports RF on, and no sleep request is pending. -/
abbrev dozeGuard : Guard State Irq Call :=
  preTbttGuard fun rfOn s => rfOn = true ∧ ¬ s.sleepPending

structure DozeInv (s : State) : Prop where
  asleep : s.psState = true → s.psmState = .txWindow
  pending : s.sleepPending → s.psmState = .txWindow
  posted : s.sleepPending → .sleepPosted s.interval ∈ s.trace
  mask : s.updateMask &&& psUpdateActionSleep ≠ 0 → s.updateMask &&& psUpdateTransitionFlag ≠ 0
  timer : ∀ callback, s.timer = some callback → s.psmState = callback.window
  inTime : sleepsInTime s.trace

theorem sleepsInTime_cons {o : Obs} {t : List Obs} (ht : sleepsInTime t)
    (ho : ∀ k, o = .sleepDone k → .sleepPosted k ∈ t) : sleepsInTime (o :: t) := by
  intro k u hu
  rcases List.suffix_cons_iff.mp hu with h | h
  · obtain ⟨hk, rfl⟩ := List.cons.inj h
    exact ho k hk.symm
  · exact ht k u h

theorem sleepsInTime_filter {t : List Obs} :
    sleepsInTime (t.filter Obs.isPower) ↔ sleepsInTime t := by
  constructor
  · intro h k u hu
    have hf := h k (u.filter Obs.isPower) (hu.filter Obs.isPower)
    exact (List.mem_filter.mp hf).1
  · intro h k u hu
    induction t with
    | nil => simp at hu
    | cons o t ih =>
        have ht : sleepsInTime t := fun k u hu => h k u (hu.trans (List.suffix_cons o t))
        by_cases ho : Obs.isPower o
        · rw [List.filter_cons_of_pos ho] at hu
          rcases List.suffix_cons_iff.mp hu with hcons | hsuffix
          · obtain ⟨rfl, rfl⟩ := List.cons.inj hcons
            have hk := h k t (List.suffix_refl _)
            exact List.mem_filter.mpr ⟨hk, rfl⟩
          · exact ih ht hsuffix
        · rw [List.filter_cons_of_neg ho] at hu
          exact ih ht hu

/-- What does not touch the fields of the doze decision keeps the invariant. -/
theorem DozeInv.frame {s t : State} (h : DozeInv s) (ht : t.power = s.power) : DozeInv t := by
  simp only [State.power, Prod.mk.injEq] at ht
  obtain ⟨hpsm, hps, hmask, -, htimer, hint, htrace⟩ := ht
  have hpending : t.sleepPending ↔ s.sleepPending := by
    unfold State.sleepPending State.transitionPending
    rw [hmask]
  refine ⟨?_, ?_, ?_, ?_, ?_, ?_⟩
  · rw [hpsm, hps]
    exact h.asleep
  · rw [hpsm, hpending]
    exact h.pending
  · intro hp
    have hs : Obs.sleepPosted s.interval ∈ s.trace.filter Obs.isPower :=
      List.mem_filter.mpr ⟨h.posted (hpending.mp hp), rfl⟩
    rw [← htrace, ← hint] at hs
    exact (List.mem_filter.mp hs).1
  · rw [hmask]
    exact h.mask
  · rw [htimer, hpsm]
    exact h.timer
  · rw [← sleepsInTime_filter, htrace, sleepsInTime_filter]
    exact h.inTime

theorem dozeInv_init : DozeInv .init where
  asleep h := by simp [State.init] at h
  pending _ := rfl
  posted h := by simp [State.sleepPending, State.init] at h
  mask h := by simp [State.init] at h
  timer _ h := by simp [State.init] at h
  inTime k t h := by simp [State.init] at h

/-- The rely of the main loop: a pending sleep request stays pending. -/
def dozeRely : Rely State where
  inv := DozeInv
  rel s t := s.sleepPending → t.sleepPending
  refl _ := id
  trans h h' := h' ∘ h

variable {cf : Conf}

/-- A request to sleep is posted by an awake device in the TX window. -/
theorem DozeInv.psUpdate {s : State} (h : DozeInv s) (hpsm : s.psmState = .txWindow)
    (htimer : s.timer = none) : DozeInv (psUpdate cf s) := by
  rcases psUpdate_cases cf s with e | ⟨-, e⟩ | ⟨-, e⟩
  · rw [e]
    exact h
  · rw [e]
    refine ⟨fun _ => hpsm, fun _ => hpsm, fun _ => List.mem_cons_self, fun _ => ?_, ?_, ?_⟩
    · exact sleepMask_transition
    · intro callback hc
      rw [show (setTransitToSleep true (postSleep s)).timer = s.timer from rfl, htimer] at hc
      cases hc
    · exact sleepsInTime_cons h.inTime fun k hk => by cases hk
  · rw [e]
    have hquiet : ¬ (setTransitToWake true (postWake s)).sleepPending :=
      fun hp => hp.2 wakeMask_sleep
    refine ⟨fun _ => hpsm, fun _ => hpsm, fun hp => absurd hp hquiet, fun _ => ?_, ?_, ?_⟩
    · exact wakeMask_transition
    · intro callback hc
      rw [show (setTransitToWake true (postWake s)).timer = s.timer from rfl, htimer] at hc
      cases hc
    · exact sleepsInTime_cons h.inTime fun k hk => by cases hk

/-- Outside the TX window the device is awake. -/
theorem DozeInv.awake {s : State} (h : DozeInv s) (hpsm : s.psmState ≠ .txWindow) :
    s.psState = false := by
  by_contra hps
  rw [Bool.not_eq_false] at hps
  exact hpsm (h.asleep hps)

/-- Outside the TX window no sleep request is pending. -/
theorem DozeInv.quiet {s : State} (h : DozeInv s) (hpsm : s.psmState ≠ .txWindow) :
    ¬ s.sleepPending := fun hp => hpsm (h.pending hp)

/-- The fields of the doze decision but for the window and the timer. -/
theorem DozeInv.enter {s t : State} (h : DozeInv s) (hawake : t.psState = false)
    (hquiet : ¬ s.sleepPending) (hmask : t.updateMask = s.updateMask)
    (htrace : t.trace = s.trace)
    (htimer : ∀ callback, t.timer = some callback → t.psmState = callback.window) :
    DozeInv t := by
  have hquiet' : ¬ t.sleepPending := by
    unfold State.sleepPending State.transitionPending at hquiet ⊢
    rwa [hmask]
  refine ⟨?_, fun hp => absurd hp hquiet', fun hp => absurd hp hquiet', ?_, htimer, ?_⟩
  · rw [hawake]
    exact fun hps => by cases hps
  · rw [hmask]
    exact h.mask
  · rw [htrace]
    exact h.inTime

/-- The ATIM window ends: the device is awake, so the TX window starts awake. -/
theorem DozeInv.psmAtimWindowEnd {s : State} (h : DozeInv s) (hpsm : s.psmState = .atimWindow) :
    DozeInv (psmAtimWindowEnd cf { s with timer := none }) := by
  have hne : s.psmState ≠ .txWindow := by rw [hpsm]; decide
  unfold Ar9170.psmAtimWindowEnd
  split
  · refine h.enter (h.awake hne) (h.quiet hne) rfl rfl ?_
    rintro callback hc
    cases hc
    rfl
  · have htx : DozeInv { s with timer := none, psmState := .txWindow } :=
      h.enter (h.awake hne) (h.quiet hne) rfl rfl fun callback hc => by cases hc
    exact htx.psUpdate rfl rfl

theorem DozeInv.timerFires {s s' : State} (h : DozeInv s) (hs : timerFires cf s = some s') :
    DozeInv s' ∧ ¬ s.sleepPending := by
  unfold Ar9170.timerFires at hs
  obtain ⟨callback, hc, rfl⟩ := Option.map_eq_some_iff.mp hs
  have hwindow := h.timer callback hc
  have hne : s.psmState ≠ .txWindow := by rw [hwindow]; cases callback <;> decide
  refine ⟨?_, h.quiet hne⟩
  cases callback with
  | atimWindowStart =>
      refine h.enter (h.awake hne) (h.quiet hne) rfl rfl ?_
      rintro callback ⟨⟩
      exact if_pos hwindow
  | atimWindowEnd => exact h.psmAtimWindowEnd hwindow
  | softBeaconTx =>
      have hsoft : psmSoftBeaconTx { s with timer := none } =
          { s with sendSoftBcnFlag := true, timer := some .softBeaconTx } := if_pos hwindow
      simp only [hsoft]
      refine h.enter (h.awake hne) (h.quiet hne) rfl rfl ?_
      rintro callback ⟨⟩
      exact hwindow

theorem DozeInv.rspPreTbtt (hif : cf.vifType = .adhoc) (hps : cf.confPs = true) {s : State}
    (h : DozeInv s) (hquiet : ¬ s.sleepPending) : DozeInv (rspPreTbtt cf true s) := by
  simp only [Ar9170.rspPreTbtt, hif, hps, if_true]
  refine DozeInv.frame ?_ (clearWaitFlags_power _)
  refine h.enter rfl hquiet rfl rfl ?_
  rintro callback ⟨⟩
  rfl

/-- Every admitted interrupt keeps the invariant and a pending sleep request. -/
theorem dozeInv_irq (hif : cf.vifType = .adhoc) (hps : cf.confPs = true) (i : Irq) (s s' : State)
    (h : DozeInv s) (hG : dozeGuard.irq i s) (hi : irq cf i s = some s') :
    DozeInv s' ∧ (s.sleepPending → s'.sleepPending) := by
  cases hpower : i.isPower with
  | false =>
      have e := irq_power hpower hi
      refine ⟨h.frame e, ?_⟩
      unfold State.sleepPending State.transitionPending
      rw [updateMask_of_power e]
      exact id
  | true =>
      cases i with
      | preTbtt rfOn =>
          obtain ⟨rfl, hquiet⟩ := hG
          cases hi
          exact ⟨h.rspPreTbtt hif hps hquiet, fun hp => absurd hp hquiet⟩
      | timer =>
          obtain ⟨hinv, hquiet⟩ := h.timerFires hi
          exact ⟨hinv, fun hp => absurd hp hquiet⟩
      | _ => cases hpower

theorem DozeInv.fallAsleep {s : State} (h : DozeInv s) (hp : s.sleepPending) :
    DozeInv (fallAsleep s) where
  asleep _ := h.pending hp
  pending := h.pending
  posted hp := List.mem_cons_of_mem _ (h.posted hp)
  mask := h.mask
  timer := h.timer
  inTime := sleepsInTime_cons h.inTime fun k hk => by
    cases hk
    exact h.posted hp

theorem DozeInv.clearUpdateMask {s : State} (h : DozeInv s) : DozeInv (clearUpdateMask s) := by
  have hquiet : ¬ (Ar9170.clearUpdateMask s).sleepPending := fun hp => hp.2 BitVec.zero_and
  exact ⟨h.asleep, fun hp => absurd hp hquiet, fun hp => absurd hp hquiet,
    fun hp => absurd BitVec.zero_and hp, h.timer, h.inTime⟩

theorem DozeInv.command {f : State → State} (hf : CommandAction f) {s : State} (h : DozeInv s) :
    DozeInv (f s) := by
  cases hf with
  | clearUpdateMask => exact h.clearUpdateMask
  | setTransitToWake => exact ⟨h.asleep, h.pending, h.posted, h.mask, h.timer, h.inTime⟩
  | read => exact h
  | setTransitToSleep => exact h.frame rfl

/-- The check carries a request out while it is still pending, which is the
same beacon interval. -/
theorem sat_schPowersaveCheck (s : State) :
    Sat dozeRely schPowersaveCheck (fun _ _ => True) s := by
  refine Sat.read_bind fun t _ ht => ?_
  split
  · refine Sat.read_bind fun u _ hu => ?_
    split
    next hsleep =>
      have hp : u.sleepPending := ⟨hu.mask hsleep, hsleep⟩
      intro v huv hv
      refine ⟨hv.fallAsleep (huv hp), ?_⟩
      exact (acts_powersave_clear true).sat_true fun f t hf ht => ht.command hf
    next => exact (acts_powersave_clear false).sat_true fun f t hf ht => ht.command hf
  · exact Sat.ret_true _

theorem sat_opScheduler_doze (s : State) (h : DozeInv s) :
    Sat dozeRely (opScheduler cf) (fun _ _ => True) s := by
  refine Sat.seq (J := fun _ _ => True) ?_ h fun _ t ht _ => ?_
  · exact Acts.sat_true acts_schEraseNodesCheck fun f t hf ht => ht.frame (hf.power t)
  · refine (sat_schPowersaveCheck t).seq ht fun _ u hu _ => ?_
    refine Sat.seq (J := fun _ _ => True) ?_ hu fun _ v _ _ => ?_
    · exact Acts.sat_true (acts_schAsyncTxCheck cf) fun f t hf ht => ht.frame (hf.power t)
    · exact Acts.sat_true (acts_schAsyncRxCheck cf) fun f t hf ht => ht.frame (hf.power t)

theorem sat_call_doze (k : Call) (s : State) (h : DozeInv s) :
    Sat dozeRely ((machine cf).body k) (fun _ _ => True) s := by
  cases k with
  | opScheduler => exact sat_opScheduler_doze s h
  | ieee80211OpScheduler =>
      exact Acts.sat_true (acts_ieee80211OpScheduler cf) fun f t hf ht => ht.frame (hf.power t)
  | startXmit da nextHop =>
      exact Acts.sat_true (acts_startXmit cf da nextHop) fun f t hf ht => ht.frame (hf.power t)

/-- While no PRE-TBTT finds a sleep request pending, the station is asleep in
the TX window only, in every state of every run. -/
theorem dozeSafe_of_run (hif : cf.vifType = .adhoc) (hps : cf.confPs = true)
    {c : Config State} {ls : List (Label Irq Call)}
    (h : (machine cf).Run dozeGuard (.idle .init) ls c) : c.state.dozeSafe := by
  have hinv : DozeInv c.state :=
    h.inv (r := dozeRely) (dozeInv_irq hif hps) (fun k s hs _ => sat_call_doze k s hs) dozeInv_init
  exact ⟨hinv.asleep, hinv.inTime⟩

/-- The scheduler runs in time: the station sleeps through the TX window and is
awake again in the next interval. -/
def sleepAndWake : List (Label Irq Call) :=
  atimWindowElapses ++ callFor .opScheduler 13 ++ [.irq (.preTbtt true)]

theorem dozeSafe_of_run_sleepAndWake :
    ∃ c, (machine .std).Run dozeGuard (.idle .init) sleepAndWake c ∧
      c.state.trace = [.sleepDone 1, .sleepPosted 1] ∧ c.state.dozeSafe := by
  obtain ⟨c, hrun, htrace⟩ := Machine.exists_run_of_exec (machine .std) dozeGuard
    (.idle .init) sleepAndWake
    (fun s => s.trace = [.sleepDone 1, .sleepPosted 1]) (by decide) (by decide)
  exact ⟨c, hrun, htrace, dozeSafe_of_run rfl rfl hrun⟩

theorem not_dozeSafe_sleepTooLate :
    ∃ c, (machine .std).Run rfOnGuard (.idle .init) sleepTooLate c ∧
      c.state.psmState = .preTbtt ∧ ¬ c.state.dozeSafe := by
  obtain ⟨c, hrun, hpsm, hps⟩ := Machine.exists_run_of_exec (machine .std) rfOnGuard
    (.idle .init) sleepTooLate
    (fun s => s.psmState = .preTbtt ∧ s.psState = true) (by decide) (by decide)
  refine ⟨c, hrun, hpsm, fun hsafe => ?_⟩
  rw [hsafe.1 hps] at hpsm
  cases hpsm

end Calipso.Ar9170
