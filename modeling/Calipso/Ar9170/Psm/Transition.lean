import Calipso.Ar9170.Psm.Power

/-!
# What a power-save transition leaves behind

The scheduler carries a posted transition out and clears the mask. After that
neither transit flag should be set and `ps.state` should be the requested mode.
A wake request breaks this for good: the code that should clear its flag sets it
again, and in an IBSS nothing else clears it. So a transition is left consistent
exactly when no wake request was ever posted.
-/

namespace Calipso.Ar9170

open Interrupt

/-- The state the scheduler's power-save check leaves when it is not
interrupted. -/
def State.powersaveChecked (s : State) : State :=
  (schPowersaveCheck.eval s).2

/-- The requested transition has been carried out and nothing is left of it. -/
def State.transitionDone (s t : State) : Prop :=
  t.psmTransitToSleep = false ∧ t.psmTransitToWake = false ∧ t.updateMask = 0 ∧
    t.psState = decide s.sleepPending

def State.wakeRequested (s : State) : Prop :=
  ∃ k, .wakePosted k ∈ s.trace

/-- What `ar9170_powersave` does to the transit flags. -/
def clearTransit (s : State) : State :=
  if s.psmTransitToSleep then setTransitToSleep false s
  else if s.psmTransitToWake then setTransitToWake true s
  else s

theorem eval_powersave {ps : Bool} {s : State} (h : s.env.mallocOk = true) :
    ((powersave ps).eval s).2 = clearTransit s := by
  unfold powersave clearTransit
  simp only [Prog.read_bind, Prog.eval_act, id_eq, h, if_true]
  cases hsleep : s.psmTransitToSleep with
  | true => rfl
  | false =>
      simp only [Prog.eval_act, id_eq, Bool.false_eq_true, if_false]
      cases hwake : s.psmTransitToWake <;> rfl

theorem powersaveChecked_of_sleep {s : State} (hp : s.sleepPending)
    (hm : s.env.mallocOk = true) :
    s.powersaveChecked = clearUpdateMask (clearTransit (fallAsleep s)) := by
  have hm' : (fallAsleep s).env.mallocOk = true := hm
  have hp1 : s.updateMask &&& psUpdateTransitionFlag ≠ 0 := hp.1
  unfold State.powersaveChecked schPowersaveCheck
  simp only [Prog.read_bind, Prog.eval_act, id_eq, if_pos hp1, if_pos hp.2, Prog.modify_bind,
    Prog.eval_bind, eval_powersave hm']
  rfl

theorem powersaveChecked_of_wake {s : State} (hp : s.transitionPending)
    (hwake : ¬ s.sleepPending) (hm : s.env.mallocOk = true) :
    s.powersaveChecked = clearUpdateMask (clearTransit s) := by
  have hp1 : s.updateMask &&& psUpdateTransitionFlag ≠ 0 := hp
  have hact : ¬ s.updateMask &&& psUpdateActionSleep ≠ 0 := fun h => hwake ⟨hp, h⟩
  unfold State.powersaveChecked schPowersaveCheck
  simp only [Prog.read_bind, Prog.eval_act, id_eq, if_pos hp1, if_neg hact,
    Prog.eval_bind, eval_powersave hm]
  rfl

theorem clearTransit_psmTransitToSleep (s : State) :
    (clearTransit s).psmTransitToSleep = false := by
  unfold clearTransit
  split
  · rfl
  next h =>
    rw [Bool.not_eq_true] at h
    split <;> exact h

/-- The slip: the flag of a wake transition stays set. -/
theorem clearTransit_psmTransitToWake (s : State) :
    (clearTransit s).psmTransitToWake = s.psmTransitToWake := by
  unfold clearTransit
  split
  · rfl
  · split
    next h => rw [h]; rfl
    next => rfl

theorem clearTransit_psState (s : State) : (clearTransit s).psState = s.psState := by
  unfold clearTransit
  split
  · rfl
  · split <;> rfl

/-- In any state, a transition is carried out consistently exactly when no wake
flag is set and the request is for sleep or already granted. -/
theorem transitionDone_iff {s : State} (hp : s.transitionPending) (hm : s.env.mallocOk = true) :
    s.transitionDone s.powersaveChecked ↔
      s.psmTransitToWake = false ∧ (s.sleepPending ∨ s.psState = false) := by
  unfold State.transitionDone
  by_cases hsleep : s.sleepPending
  · rw [powersaveChecked_of_sleep hsleep hm]
    have hflag : (clearUpdateMask (clearTransit (fallAsleep s))).psmTransitToSleep = false :=
      clearTransit_psmTransitToSleep _
    have hwake : (clearUpdateMask (clearTransit (fallAsleep s))).psmTransitToWake =
        s.psmTransitToWake := clearTransit_psmTransitToWake _
    have hps : (clearUpdateMask (clearTransit (fallAsleep s))).psState = true :=
      clearTransit_psState _
    rw [hflag, hwake, hps, decide_eq_true hsleep]
    exact ⟨fun h => ⟨h.2.1, .inl hsleep⟩, fun h => ⟨rfl, h.1, rfl, rfl⟩⟩
  · rw [powersaveChecked_of_wake hp hsleep hm]
    have hflag : (clearUpdateMask (clearTransit s)).psmTransitToSleep = false :=
      clearTransit_psmTransitToSleep _
    have hwake : (clearUpdateMask (clearTransit s)).psmTransitToWake = s.psmTransitToWake :=
      clearTransit_psmTransitToWake _
    have hps : (clearUpdateMask (clearTransit s)).psState = s.psState := clearTransit_psState _
    rw [hflag, hwake, hps, decide_eq_false hsleep]
    exact ⟨fun h => ⟨h.2.1, .inr h.2.2.2⟩,
      fun h => ⟨rfl, h.1, rfl, h.2.resolve_left hsleep⟩⟩

/-- The transit flag of a wake request is set from the first request on, and a
request that does not ask for sleep is a wake request. -/
structure TransitionInv (s : State) : Prop where
  wake : s.psmTransitToWake = true ↔ s.wakeRequested
  pending : s.transitionPending → ¬ s.sleepPending → s.wakeRequested

theorem transitionInv_init : TransitionInv .init where
  wake := by simp [State.wakeRequested, State.init]
  pending hp := absurd hp (by decide)

theorem TransitionInv.frame {s t : State} (h : TransitionInv s) (ht : t.power = s.power) :
    TransitionInv t := by
  simp only [State.power, Prod.mk.injEq] at ht
  obtain ⟨-, -, hmask, hwake, -, -, htrace⟩ := ht
  have hmem : ∀ u : State, u.wakeRequested ↔ ∃ k, .wakePosted k ∈ u.trace.filter Obs.isPower := by
    intro u
    simp [State.wakeRequested, List.mem_filter, Obs.isPower]
  have hreq : t.wakeRequested ↔ s.wakeRequested := by
    rw [hmem t, hmem s, htrace]
  refine ⟨?_, ?_⟩
  · rw [hwake, hreq]
    exact h.wake
  · unfold State.sleepPending State.transitionPending
    rw [hmask, hreq]
    exact h.pending

/-- The rely of the main loop: in an IBSS no interrupt clears the wake flag. -/
def transitionRely : Rely State where
  inv := TransitionInv
  rel s t := s.psmTransitToWake = true → t.psmTransitToWake = true
  refl _ := id
  trans h h' := h' ∘ h

variable {cf : Conf}

theorem wakeRequested_cons {s t : State} {o : Obs} (ht : t.trace = o :: s.trace)
    (ho : ∀ k, o ≠ .wakePosted k) : t.wakeRequested ↔ s.wakeRequested := by
  unfold State.wakeRequested
  rw [ht]
  constructor
  · rintro ⟨k, hk⟩
    rcases List.mem_cons.mp hk with h | h
    · exact absurd h.symm (ho k)
    · exact ⟨k, h⟩
  · rintro ⟨k, hk⟩
    exact ⟨k, List.mem_cons_of_mem _ hk⟩

theorem TransitionInv.psUpdate {s : State} (h : TransitionInv s) :
    TransitionInv (psUpdate cf s) ∧
      (s.psmTransitToWake = true → (psUpdate cf s).psmTransitToWake = true) := by
  rcases psUpdate_cases cf s with e | ⟨-, e⟩ | ⟨-, e⟩
  · rw [e]
    exact ⟨h, id⟩
  · rw [e]
    have hreq : (setTransitToSleep true (postSleep s)).wakeRequested ↔ s.wakeRequested :=
      wakeRequested_cons rfl fun k hk => by cases hk
    refine ⟨⟨?_, fun _ hno => absurd ⟨sleepMask_transition, sleepMask_sleep⟩ hno⟩, id⟩
    rw [hreq]
    exact h.wake
  · rw [e]
    have hreq : (setTransitToWake true (postWake s)).wakeRequested :=
      ⟨s.interval, List.mem_cons_self⟩
    exact ⟨⟨⟨fun _ => hreq, fun _ => rfl⟩, fun _ _ => hreq⟩, fun _ => rfl⟩

/-- Only the window, the RF state, the timer and other fields of no concern
have changed. -/
theorem TransitionInv.enter {s t : State} (h : TransitionInv s)
    (hwake : t.psmTransitToWake = s.psmTransitToWake) (hmask : t.updateMask = s.updateMask)
    (htrace : t.trace = s.trace) : TransitionInv t := by
  have hreq : t.wakeRequested ↔ s.wakeRequested := by
    unfold State.wakeRequested
    rw [htrace]
  refine ⟨?_, ?_⟩
  · rw [hwake, hreq]
    exact h.wake
  · unfold State.sleepPending State.transitionPending
    rw [hmask, hreq]
    exact h.pending

theorem TransitionInv.rspPreTbtt (hif : cf.vifType = .adhoc) (rfOn : Bool) {s : State}
    (h : TransitionInv s) :
    TransitionInv (rspPreTbtt cf rfOn s) ∧
      (rspPreTbtt cf rfOn s).psmTransitToWake = s.psmTransitToWake := by
  simp only [Ar9170.rspPreTbtt, hif]
  split
  · refine ⟨TransitionInv.frame ?_ (clearWaitFlags_power _),
      (psmTransitToWake_of_power (clearWaitFlags_power _)).trans rfl⟩
    exact h.enter rfl rfl rfl
  · refine ⟨TransitionInv.frame ?_ (clearWaitFlags_power _),
      (psmTransitToWake_of_power (clearWaitFlags_power _)).trans rfl⟩
    exact h.enter rfl rfl rfl

theorem TransitionInv.timerFires {s s' : State} (h : TransitionInv s)
    (hs : timerFires cf s = some s') :
    TransitionInv s' ∧ (s.psmTransitToWake = true → s'.psmTransitToWake = true) := by
  unfold Ar9170.timerFires at hs
  obtain ⟨callback, -, rfl⟩ := Option.map_eq_some_iff.mp hs
  have htimer : TransitionInv { s with timer := none } := h.enter rfl rfl rfl
  cases callback with
  | atimWindowStart => exact ⟨htimer.enter rfl rfl rfl, id⟩
  | atimWindowEnd =>
      simp only [psmAtimWindowEnd]
      split
      · exact ⟨htimer.enter rfl rfl rfl, id⟩
      · exact TransitionInv.psUpdate (h.enter rfl rfl rfl)
  | softBeaconTx =>
      simp only [psmSoftBeaconTx]
      split
      · exact ⟨htimer.enter rfl rfl rfl, id⟩
      · exact ⟨htimer, id⟩

theorem transitionInv_irq (hif : cf.vifType = .adhoc) (i : Irq) (s s' : State)
    (h : TransitionInv s) (hi : irq cf i s = some s') :
    TransitionInv s' ∧ (s.psmTransitToWake = true → s'.psmTransitToWake = true) := by
  cases hpower : i.isPower with
  | false =>
      have e := irq_power hpower hi
      refine ⟨h.frame e, ?_⟩
      rw [psmTransitToWake_of_power e]
      exact id
  | true =>
      cases i with
      | preTbtt rfOn =>
          cases hi
          have hpre := h.rspPreTbtt hif rfOn
          refine ⟨hpre.1, ?_⟩
          rw [hpre.2]
          exact id
      | timer => exact h.timerFires hi
      | _ => cases hpower

/-- The command code sets the wake flag only where it has found it set. -/
theorem sat_powersave_transition (ps : Bool) {s : State} :
    Sat transitionRely (powersave ps) (fun _ _ => True) s := by
  refine Sat.read_bind fun t _ _ => ?_
  split
  · refine Sat.read_bind fun u _ _ => ?_
    split
    · refine Sat.modify_bind fun v _ hv => ⟨hv.enter rfl rfl rfl, Sat.ret_true _⟩
    · refine Sat.read_bind fun v _ _ => ?_
      split
      next hwake =>
        refine Sat.modify_bind fun w hvw hw => ⟨hw.enter ?_ rfl rfl, Sat.ret_true _⟩
        exact (hvw hwake).symm
      next => exact Sat.ret_true _
  · exact Sat.ret_true _

theorem TransitionInv.clearUpdateMask {s : State} (h : TransitionInv s) :
    TransitionInv (clearUpdateMask s) :=
  ⟨h.wake, fun hp => absurd BitVec.zero_and hp⟩

theorem TransitionInv.fallAsleep {s : State} (h : TransitionInv s) :
    TransitionInv (fallAsleep s) := by
  have hreq : (Ar9170.fallAsleep s).wakeRequested ↔ s.wakeRequested :=
    wakeRequested_cons rfl fun k hk => by cases hk
  refine ⟨?_, ?_⟩
  · rw [hreq]
    exact h.wake
  · rw [hreq]
    exact h.pending

theorem sat_schPowersaveCheck_transition {s : State} :
    Sat transitionRely schPowersaveCheck (fun _ _ => True) s := by
  have hclear : ∀ (ps : Bool) (t : State), TransitionInv t →
      Sat transitionRely (powersave ps >>= fun _ => Prog.modify Ar9170.clearUpdateMask)
        (fun _ _ => True) t := by
    intro ps t ht
    refine (sat_powersave_transition ps).seq ht fun _ u _ _ => ?_
    exact Sat.modify fun v _ hv => ⟨hv.clearUpdateMask, fun _ _ _ => trivial⟩
  refine Sat.read_bind fun t _ _ => ?_
  split
  · refine Sat.read_bind fun u _ hu => ?_
    split
    · exact Sat.modify_bind fun v _ hv => ⟨hv.fallAsleep, hclear true _ hv.fallAsleep⟩
    · exact hclear false u hu
  · exact Sat.ret_true _

theorem sat_call_transition (k : Call) (s : State) (h : TransitionInv s) :
    Sat transitionRely ((machine cf).body k) (fun _ _ => True) s := by
  cases k with
  | opScheduler =>
      refine Sat.seq (J := fun _ _ => True) ?_ h fun _ t ht _ => ?_
      · exact Acts.sat_true acts_schEraseNodesCheck fun f t hf ht => ht.frame (hf.power t)
      · refine sat_schPowersaveCheck_transition.seq ht fun _ u hu _ => ?_
        refine Sat.seq (J := fun _ _ => True) ?_ hu fun _ v _ _ => ?_
        · exact Acts.sat_true (acts_schAsyncTxCheck cf) fun f t hf ht => ht.frame (hf.power t)
        · exact Acts.sat_true (acts_schAsyncRxCheck cf) fun f t hf ht => ht.frame (hf.power t)
  | ieee80211OpScheduler =>
      exact Acts.sat_true (acts_ieee80211OpScheduler cf) fun f t hf ht => ht.frame (hf.power t)
  | startXmit da nextHop =>
      exact Acts.sat_true (acts_startXmit cf da nextHop) fun f t hf ht => ht.frame (hf.power t)

theorem transitionInv_of_run (hif : cf.vifType = .adhoc) {c : Config State}
    {ls : List (Label Irq Call)} (h : (machine cf).Run .any (.idle .init) ls c) :
    TransitionInv c.state :=
  h.inv (r := transitionRely) (fun i s s' hs _ => transitionInv_irq hif i s s' hs)
    (fun k s hs _ => sat_call_transition k s hs) transitionInv_init

/-- The station was put to sleep too late, sends its beacon, and wants to wake
at the end of the ATIM window. -/
def wakeAfterSleep : List (Label Irq Call) :=
  sleepTooLate ++ List.replicate 6 .main ++ [.irq .beaconConfig, .irq .timer, .irq .timer]

end Calipso.Ar9170
