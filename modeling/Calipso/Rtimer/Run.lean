import Calipso.Rtimer.Schedule

/-!
# Every timer that is set runs once, and not before its time

In every run in which the conditions on the timer are met, the callbacks of the requests run in
their order, each at its time or later, and between the calls of `rtimer_set` the newest request
has run or is the pending one, for which the hardware is armed. The conditions are needed: a timer
that replaces a pending one runs at the time of the replaced one, and a timer whose time has passed
is never armed.
-/

namespace Calipso.Rtimer

open Interrupt

variable {s t u : State}

section CompareInterrupt

/-- The end of `rtimer_run_next`: what the callback has set is scheduled again. -/
def reschedule : Prog State Unit := do
  let nextRtimer ← Prog.read State.nextRtimer
  match nextRtimer with
  | none => pure ()
  | some t => do
      let time ← Prog.read fun s => (s.rtimers t).time
      rtimerArchSchedule time

theorem acts_reschedule : Acts KeepsMet reschedule := by
  have hsame : ∀ {f : State → State}, (∀ s, (f s).met = s.met) → KeepsMet f := KeepsMet.of_eq
  refine .bind (.read (hsame fun _ => rfl)) fun nextRtimer => ?_
  cases nextRtimer with
  | none => exact .ret _
  | some t => exact .bind (.read (hsame fun _ => rfl)) fun time => acts_rtimerArchSchedule time

theorem acts_rtimerRunNext (callback : List Setting) :
    Acts KeepsMet (rtimerRunNext callback) := by
  have hsame : ∀ {f : State → State}, (∀ s, (f s).met = s.met) → KeepsMet f := KeepsMet.of_eq
  unfold rtimerRunNext
  refine .bind (.read (hsame fun _ => rfl)) fun nextRtimer => ?_
  cases nextRtimer with
  | none => exact .modify (hsame fun _ => rfl)
  | some t =>
    refine .bind (.modify (hsame fun _ => rfl)) fun _ => .bind (.modify (hsame fun _ => rfl)) ?_
    intro _
    exact .bind (.forEach (fun set => acts_rtimerSet set.rtimer set.time) callback)
      fun _ => acts_reschedule

theorem acts_tc1Handler (callback : List Setting) : Acts KeepsMet (tc1Handler callback) := by
  have hsame : ∀ {f : State → State}, (∀ s, (f s).met = s.met) → KeepsMet f := KeepsMet.of_eq
  unfold tc1Handler
  refine .bind (.modify (hsame fun _ => rfl)) fun _ => .bind (.modify (hsame fun _ => rfl)) ?_
  exact fun _ => .bind (.modify (hsame fun _ => rfl)) fun _ => acts_rtimerRunNext callback

theorem waitless_rtimerArchSchedule (time : RtimerClock) :
    (rtimerArchSchedule time).Waitless := by
  intro _ _ _
  dsimp only [id_eq, Prog.bind]
  split
  · exact fun _ _ _ _ _ => trivial
  · trivial

theorem waitless_rtimerSet (rtimer : Nat) (time : RtimerClock) :
    (rtimerSet rtimer time).Waitless := by
  intro _ _ _ _
  dsimp only [id_eq, Prog.bind]
  split
  · exact waitless_rtimerArchSchedule time
  · exact fun _ => trivial

theorem waitless_reschedule : reschedule.Waitless := by
  intro s
  dsimp only [id_eq, Prog.bind]
  split
  · trivial
  · exact fun _ => waitless_rtimerArchSchedule _

theorem waitless_tc1Handler (callback : List Setting) : (tc1Handler callback).Waitless := by
  intro _ _ _ s
  dsimp only [id_eq, Prog.bind]
  split
  · exact fun _ => trivial
  · intro _ _
    exact Prog.Waitless.bind (p := Prog.forEach (fun set => rtimerSet set.rtimer set.time) callback)
      (.forEach (fun set => waitless_rtimerSet set.rtimer set.time) callback)
      fun _ => waitless_reschedule

theorem sat_reschedule (hs : s.programming = false) :
    Sat callbackRely reschedule (fun _ u => u.met = true → u.programming = false) s := by
  have hr := callbackContext
  have hacts := acts_reschedule
  refine hr.sat_act hacts fun a hsa hma _ hIa _ => ⟨hIa, ?_⟩
  have hprog_a := hr.calm hsa hma hs
  have hacts' := hacts.2 a
  dsimp only [id_eq, Prog.bind] at hacts' ⊢
  cases hnext : a.nextRtimer with
  | none => exact hr.sat_ret fun u hu hmu _ => hr.calm hu hmu hprog_a
  | some rtimer =>
    rw [hnext] at hacts'
    refine hr.sat_act hacts' fun b hab hmb _ hIb _ => ⟨hIb, ?_⟩
    refine hr.sat_rtimerArchSchedule rtimer fun c hbc hmc hIc => ?_
    have hprog_c := hr.calm hbc hmc (hr.calm hab hmb hprog_a)
    have hservice := State.service_of_frame (ticks_of_callbackRely hbc).env.passes.2.1
    have hservice' := State.service_of_frame (ticks_of_callbackRely hab).env.passes.2.1
    simp only [State.service, Prod.mk.injEq] at hservice hservice'
    have hnext_c : c.nextRtimer = some rtimer :=
      hservice.1.trans (hservice'.1.trans hnext)
    rcases hIc.1.settled hprog_c hIc.2 with hquiet | ⟨rtimer', hpending, harmed⟩
    · exact absurd hquiet.next (by rw [hnext_c]; simp)
    · obtain rfl : rtimer' = rtimer := Option.some.inj (hpending.next.symm.trans hnext_c)
      have htime : (b.rtimers rtimer').time = c.nextRtimerTime := by
        rw [← hpending.timer, hservice.2.1]
        rfl
      dsimp only
      rw [htime]
      refine ⟨⟨?_, hIc.2⟩, hpending, harmed.shape.congr rfl⟩
      exact hIc.1.congr rfl rfl fun hfalse => absurd hfalse (by simp [setNextRtimerTime])

/-- `rtimer_run_next`, called with the auxiliary counter stopped. -/
theorem sat_rtimerRunNext {rtimer : Nat} (callback : List Setting) (hs : s.programming = true)
    (hpending : s.Pending rtimer s.nextRtimerTime) (hstale : s.Stale) :
    Sat callbackRely (rtimerRunNext callback) (fun _ u => u.met = true → u.programming = false)
      s := by
  have hr := callbackContext
  have hacts := acts_rtimerRunNext callback
  have hkeep : ∀ {v w : State}, callbackRely.rel v w → w.met = true → v.programming = true →
      w.programming = true ∧ w.service = v.service ∧ w.nextRtimerTime = v.nextRtimerTime ∧
        (v.Stale → w.Stale) := fun hvw hmw hv => by
    have henv := hr.env hvw hmw hv
    have hframe := henv.passes.2.1
    exact ⟨(State.programming_of_frame hframe).trans hv, State.service_of_frame hframe,
      State.time_of_frame hframe, henv.stale hmw hv⟩
  have hinv : ∀ {v w : State}, callbackInv v → w.programming = true →
      (w.timeMsb, w.overflow, w.now) = (v.timeMsb, v.overflow, v.now) →
      (w.requests, w.runs) = (v.requests, v.runs) → w.handling = v.handling →
      callbackInv w := fun hv hw hclock hmade hhand =>
    ⟨hv.1.congr hclock hmade fun hfalse => absurd hfalse (by rw [hw]; simp), hhand.trans hv.2⟩
  refine hr.sat_act hacts fun a hsa hma _ hIa _ => ⟨hIa, ?_⟩
  obtain ⟨hprog_a, hservice_a, htime_a, hstale_a⟩ := hkeep hsa hma hs
  have hpend_a := hpending.congr hservice_a
  have hacts' := hacts.2 a
  dsimp only [id_eq, Prog.bind] at hacts' ⊢
  rw [hpend_a.next] at hacts' ⊢
  refine hr.sat_act hacts' fun b hab hmb _ hIb _ => ?_
  obtain ⟨hprog_b, hservice_b, htime_b, hstale_b⟩ := hkeep hab hmb hprog_a
  have hpend_b := hpend_a.congr hservice_b
  refine ⟨hinv hIb hprog_b rfl rfl rfl, ?_⟩
  refine hr.sat_act (hacts'.2 b) fun c hbc hmc _ hIc _ => ?_
  obtain ⟨hprog_c, hservice_c, htime_c, hstale_c⟩ := hkeep hbc hmc hprog_b
  have hfilled_b : (setNextRtimer none b).Filled rtimer s.nextRtimerTime :=
    ⟨hpend_b.request, hpend_b.ran, hpend_b.newest⟩
  have hfilled_c := hfilled_b.congr hservice_c
  have hstale : c.Stale := hstale_c ((hstale_b (hstale_a hstale)).congr rfl)
  simp only [State.service, Prod.mk.injEq] at hservice_c
  have htimer : (c.rtimers rtimer).time = s.nextRtimerTime := by
    rw [hservice_c.2.1]
    exact hpend_b.timer
  have htime : c.nextRtimerTime = s.nextRtimerTime := htime_c.trans (htime_b.trans htime_a)
  have hran : callbackInv (runFunc rtimer c) :=
    ⟨hIc.1.runFunc hservice_c.1 hfilled_c htimer htime hstale, hIc.2⟩
  refine ⟨hran, ?_⟩
  -- From here on the callback is code that may set timers.
  have hrest : Sat callbackRely
      (Prog.forEach (fun set => rtimerSet set.rtimer set.time) callback >>= fun _ => reschedule)
      (fun _ u => u.met = true → u.programming = false) (runFunc rtimer c) :=
    hr.seq (sat_callback callback rfl fun _ => hran) (fun _ => hran)
      (fun _ => acts_reschedule) fun _ d _ _ hd => sat_reschedule hd
  exact hrest

/-- `TC1_Handler` for the compare interrupt. -/
theorem sat_tc1Handler (callback : List Setting) (hs : s.programming = false)
    (henabled : s.cpcsEnabled = true) (hcpcs : s.cpcs = true) :
    Sat callbackRely (tc1Handler callback) (fun _ u => u.met = true → u.programming = false)
      s := by
  have hr := callbackContext
  have hacts := acts_tc1Handler callback
  refine hr.sat_act hacts fun a hsa hma _ hIa _ => ?_
  have hprog_a := hr.calm hsa hma hs
  have hraised : a.cpcsEnabled = true ∧ a.cpcs = true := by
    refine (ticks_of_callbackRely hsa).keep hma
      (P := fun u => u.cpcsEnabled = true ∧ u.cpcs = true) (fun u _ _ hu => ⟨hu.1, ?_⟩)
      ⟨henabled, hcpcs⟩
    simp [State.tick, hu.2]
  obtain ⟨rtimer, hpending, hstruck⟩ : ∃ rtimer, a.Pending rtimer a.nextRtimerTime ∧ a.Struck := by
    rcases hIa.1.settled hprog_a hIa.2 with hquiet | ⟨rtimer, hpending, h | h | h⟩
    · exact absurd hraised.1 (by rw [hquiet.off.enabled]; simp)
    · exact absurd hraised.2 (by rw [h.cpcs]; simp)
    · exact ⟨rtimer, hpending, h⟩
    · exact absurd hraised.1 (by rw [h.1.enabled]; simp)
  have hI : callbackInv ((setProgramming true ∘ tcGetStatus) a) :=
    ⟨hIa.1.congr rfl rfl fun hfalse => absurd hfalse (by simp [setProgramming]), hIa.2⟩
  refine ⟨hI, ?_⟩
  -- The counter runs on until it is stopped, without reaching the compare register again.
  have hkeep : ∀ {v w : State}, callbackRely.rel v w → w.met = true → v.programming = true →
      v.cpcs = false → w.frame = v.frame ∧ w.cpcs = false ∧ v.now ≤ w.now := by
    intro v w hvw hmw hv hcpcs
    have hpasses := (hr.env hvw hmw hv).passes
    refine ⟨hpasses.2.1, ?_, hpasses.2.2⟩
    refine ((ticks_of_callbackRely hvw).keep hmw
      (P := fun u => u.programming = true ∧ u.cpcs = false) (fun u _ hcond hu => ⟨hu.1, ?_⟩)
      ⟨hv, hcpcs⟩).2
    rw [tick_cpcs (hcond.strikes (.inl hu.1))]
    exact hu.2
  have hinv : ∀ {v w : State}, callbackInv v → w.programming = true →
      (w.timeMsb, w.overflow, w.now) = (v.timeMsb, v.overflow, v.now) →
      (w.requests, w.runs) = (v.requests, v.runs) → w.handling = v.handling →
      callbackInv w := fun hv hw hclock hmade hhand =>
    ⟨hv.1.congr hclock hmade fun hfalse => absurd hfalse (by rw [hw]; simp), hhand.trans hv.2⟩
  refine hr.sat_act (hacts.2 a) fun b hab hmb _ hIb _ => ?_
  obtain ⟨hframe_b, hcpcs_b, hlater_b⟩ := hkeep hab hmb rfl rfl
  have hprog_b : b.programming = true := State.programming_of_frame hframe_b
  refine ⟨hinv hIb hprog_b rfl rfl rfl, ?_⟩
  refine hr.sat_act ((hacts.2 a).2 b) fun c hbc hmc _ hIc _ => ?_
  obtain ⟨hframe_c, hcpcs_c, hlater_c⟩ := hkeep hbc hmc hprog_b hcpcs_b
  have hprog_c : c.programming = true := (State.programming_of_frame hframe_c).trans hprog_b
  have hcounter : c.counter = none := by
    refine (ticks_of_callbackRely hbc).keep hmc (P := fun u => u.counter = none)
      (fun u _ _ hu => ?_) rfl
    show u.nextCount = none
    rw [State.nextCount, hu]
    rfl
  refine ⟨hinv hIc hprog_c rfl rfl rfl, ?_⟩
  have htime_b := State.time_of_frame hframe_b
  have hservice_b := State.service_of_frame hframe_b
  have htime : c.nextRtimerTime = a.nextRtimerTime :=
    (State.time_of_frame hframe_c).trans htime_b
  have hservice_c : c.service = b.service := State.service_of_frame hframe_c
  have hpending_c : (tcDisableInterrupt c).Pending rtimer c.nextRtimerTime := by
    rw [htime]
    exact hpending.congr (hservice_c.trans hservice_b)
  have hstale : (tcDisableInterrupt c).Stale := by
    refine ⟨⟨rfl, hcpcs_c, hcounter⟩, ?_⟩
    show c.nextRtimerTime.toNat ≤ c.now
    rw [htime]
    exact hstruck.due.trans (hlater_b.trans hlater_c)
  exact sat_rtimerRunNext callback hprog_c hpending_c hstale

end CompareInterrupt

section Main

/-- What the overflow handler keeps while no code is changing the timer. -/
def State.Waiting (s : State) : Prop :=
  s.programming = false ∧ (s.Quiet ∨ ∃ rtimer, s.Pending rtimer s.nextRtimerTime ∧
    (s.Running ∨ s.Struck ∨ (s.Off ∧ s.now < s.nextRtimerTime.toNat)))

theorem State.Waiting.congr (h : s.Waiting) (hstatus : t.status = s.status) : t.Waiting := by
  have hframe := State.frame_of_status hstatus
  have hservice := State.service_of_frame hframe
  have htime := State.time_of_frame hframe
  have hregisters := State.registers_of_status hstatus
  have hnow : t.now = s.now := congrArg (fun f => f.2.1) hregisters
  refine ⟨(State.programming_of_frame hframe).trans h.1, ?_⟩
  rcases h.2 with hquiet | ⟨rtimer, hpending, hstatus⟩
  · simp only [State.service, Prod.mk.injEq] at hservice
    refine .inl ⟨hservice.1.trans hquiet.next, ?_, hquiet.off.congr hregisters, ?_⟩
    · rw [hservice.2.2.1, hservice.2.2.2, hquiet.ran]
    · rw [htime, hnow]
      exact hquiet.due
  · refine .inr ⟨rtimer, htime ▸ hpending.congr hservice, ?_⟩
    refine hstatus.imp (fun h => h.congr hregisters)
      fun h => h.imp (fun h => h.congr hregisters) fun h => ⟨h.1.congr hregisters, ?_⟩
    rw [htime, hnow]
    exact h.2

theorem kept_waiting : Kept State.Waiting where
  congr hstatus h := h.congr hstatus
  tick := by
    intro s hcond hover h
    refine ⟨h.1, ?_⟩
    rcases h.2 with hquiet | ⟨rtimer, hpending, hstatus⟩
    · exact .inl ⟨hquiet.next, hquiet.ran, hquiet.off.tick, Nat.le_succ_of_le hquiet.due⟩
    · refine .inr ⟨rtimer, hpending.congr rfl, ?_⟩
      rcases hstatus with h' | h' | ⟨hoff, -⟩
      · exact h'.tick.imp_right .inl
      · exact .inr (.inl h'.tick)
      · have hsome : s.nextRtimer ≠ none := by rw [hpending.next]; simp
        exact .inr (.inr ⟨hoff.tick, hcond.due h.1 hsome hoff.enabled hover⟩)
  due := by
    intro s h hcpcs
    rcases h.2 with hquiet | ⟨rtimer, -, h' | h' | ⟨hoff, -⟩⟩
    · exact hquiet.due
    · exact absurd hcpcs (by rw [h'.cpcs]; simp)
    · exact h'.due
    · exact absurd hcpcs (by rw [hoff.cpcs]; simp)

theorem settled_of_handled (hs : s.Waiting) (h : Handled State.Waiting s t) : t.Settled := by
  rcases h.status with ⟨hwaiting, hahead⟩ | ⟨hdue, hstarted⟩
  · rcases hwaiting.2 with hquiet | ⟨rtimer, hpending, h' | h' | ⟨hoff, hdue⟩⟩
    · exact .inl hquiet
    · exact .inr ⟨rtimer, hpending, .inl h'⟩
    · exact .inr ⟨rtimer, hpending, .inr (.inl h')⟩
    · exact .inr ⟨rtimer, hpending,
        .inr (.inr ⟨hoff, hahead.resolve_left (Nat.not_le.2 hdue)⟩)⟩
  · rcases hs.2 with hquiet | ⟨rtimer, hpending, -⟩
    · exact absurd hquiet.due (Nat.not_le.2 hdue)
    · refine .inr ⟨rtimer, ?_, hstarted.imp_right .inl⟩
      rw [State.time_of_frame h.frame]
      exact hpending.congr (State.service_of_frame h.frame)

theorem State.Settled.waiting (h : s.Settled) (hprog : s.programming = false) : s.Waiting := by
  refine ⟨hprog, h.imp_right fun h => ?_⟩
  obtain ⟨rtimer, hpending, harmed⟩ := h
  exact ⟨rtimer, hpending, harmed.imp_right fun h => h.imp_right fun h => ⟨h.1, h.2.due⟩⟩

/-- The invariant of main code. -/
def mainInv (s : State) : Prop :=
  Inv s ∧ s.handling = false ∧ (s.programming = true → s.cpcs = false)

/-- The interference with main code. -/
def mainRely : Rely State where
  inv s := s.met = true → mainInv s
  rel s t := t.met = true → s.met = true ∧ (s.programming = true → Env s t) ∧
    (s.programming = false → t.programming = false)
  refl _ := fun h => ⟨h, fun _ => .refl, id⟩
  trans h h' := fun hu => by
    obtain ⟨ht, henv', hcalm'⟩ := h' hu
    obtain ⟨hs, henv, hcalm⟩ := h ht
    refine ⟨hs, fun hprog => ?_, fun hprog => hcalm' (hcalm hprog)⟩
    have hst := henv hprog
    exact hst.trans (henv' ((State.programming_of_frame hst.passes.2.1).trans hprog))

theorem mainContext : Context mainRely mainInv where
  inv _ := Iff.rfl
  met h ht := (h ht).1
  env h ht := (h ht).2.1
  calm h ht := (h ht).2.2
  toInv h := h.1
  handling h := h.2.1
  ofInv h ht hhand hcpcs := by
    refine ⟨ht, hhand.trans h.2.1, fun hprog => ?_⟩
    rcases hcpcs hprog with hfalse | ⟨hprog', hsame⟩
    · exact hfalse
    · exact hsame.trans (h.2.2 hprog')

theorem mainInv_tick (h : mainInv s) (hcond : s.Condition) : mainInv s.tick := by
  refine ⟨h.1.tick hcond, h.2.1, fun hprog => ?_⟩
  rw [tick_cpcs (hcond.strikes (.inl hprog))]
  exact h.2.2 hprog

/-- The overflow handler, while main code is setting a timer and while it is not. -/
theorem mainInv_tc0Handler (h : mainInv s) (hover : s.overflow = true) (lags : List Nat)
    (hmet : (tc0Handler.elapse State.tick lags s).met = true) :
    mainInv (tc0Handler.elapse State.tick lags s) := by
  have hprog' := State.programming_of_frame (elapse_passes lags s).2.1
  cases hprog : s.programming with
  | true =>
    -- Whatever the registers hold, the interrupt is not raised while they are set.
    have hP : Kept fun u => u.programming = true ∧ u.cpcs = false := by
      refine ⟨fun {u v} hstatus hu => ?_, fun hcond _ hu => ?_, fun hu hcpcs => ?_⟩
      · have hframe := State.frame_of_status hstatus
        exact ⟨(State.programming_of_frame hframe).trans hu.1,
          (congrArg (fun f => f.2.2.2.2.2.2) (State.registers_of_status hstatus)).trans hu.2⟩
      · refine ⟨hu.1, ?_⟩
        rw [tick_cpcs (hcond.strikes (.inl hu.1))]
        exact hu.2
      · exact absurd hcpcs (by rw [hu.2]; simp)
    have hend := inv_elapse_tc0Handler
      (Q := fun u => u.programming = true ∧ u.handling = false ∧ u.cpcs = false) hP
      ⟨hprog, h.2.2 hprog⟩ (fun _ => h.1) hover
      (fun u hu hpu => by
        rw [State.programming_of_frame hu.frame, hprog] at hpu
        exact Bool.noConfusion hpu)
      (fun u hu => by
        have hpu := (State.programming_of_frame hu.frame).trans hprog
        exact ⟨hpu, hu.handling, (hu.quiet hpu).trans (h.2.2 hprog)⟩)
      (fun u hcond hu => ⟨hu.1, hu.2.1, by
        rw [tick_cpcs (hcond.strikes (.inl hu.1))]
        exact hu.2.2⟩) lags hmet
    exact ⟨hend.1, hend.2.2.1, fun _ => hend.2.2.2⟩
  | false =>
    have hwaiting := (h.1.settled hprog h.2.1).waiting hprog
    have hend := inv_elapse_tc0Handler (Q := fun u => u.handling = false) kept_waiting hwaiting
      (fun _ => h.1) hover (fun u hu _ => settled_of_handled hwaiting hu)
      (fun u hu => hu.handling) (fun _ _ hu => hu) lags hmet
    refine ⟨hend.1, hend.2, fun htrue => ?_⟩
    rw [hprog', hprog] at htrue
    exact Bool.noConfusion htrue

/-- `TC1_Handler` interrupts main code only while that is not setting a timer. -/
theorem mainInv_tc1Handler (h : mainInv s) (hcpcs : s.cpcs = true)
    (henabled : s.cpcsEnabled = true) (callback : List Setting) (lags : List Nat)
    (hmet : ((tc1Handler callback).elapse State.tick lags s).met = true) :
    s.programming = false ∧ mainInv ((tc1Handler callback).elapse State.tick lags s) ∧
      ((tc1Handler callback).elapse State.tick lags s).programming = false := by
  have hprog : s.programming = false := by
    rw [← Bool.not_eq_true]
    intro htrue
    rw [h.2.2 htrue] at hcpcs
    exact Bool.noConfusion hcpcs
  obtain ⟨hI, -, hQ⟩ := (sat_tc1Handler callback hprog henabled hcpcs).elapse
    (fun _ => callbackRely_tick) (waitless_tc1Handler callback) (fun _ => ⟨h.1, h.2.1⟩) lags
  have hend := hQ hmet
  refine ⟨hprog, ⟨(hI hmet).1, (hI hmet).2, fun htrue => ?_⟩, hend⟩
  rw [hend] at htrue
  exact Bool.noConfusion htrue

theorem keepsMet_tick : KeepsMet State.tick :=
  fun _ h => (tick_met h).1

theorem mainRely_irq (i : Irq) (s s' : State) (hs : mainRely.inv s) (h : irq i s = some s') :
    mainRely.inv s' ∧ mainRely.rel s s' := by
  have hinv : s.met = true → Inv s := fun hmet => (hs hmet).1
  cases i with
  | tick =>
    obtain rfl : s.tick = s' := by simpa [irq] using h
    refine ⟨fun hmet => ?_, fun hmet => ?_⟩
    · obtain ⟨hs', hcond⟩ := tick_met hmet
      exact mainInv_tick (hs hs') hcond
    · exact ⟨(tick_met hmet).1, fun _ => .single ⟨hinv, .inl rfl⟩, id⟩
  | tc0 lags =>
    obtain ⟨hover, rfl⟩ : s.overflow = true ∧ tc0Handler.elapse State.tick lags s = s' := by
      simpa [irq] using h
    refine ⟨fun hmet => ?_, fun hmet => ?_⟩
    · exact mainInv_tc0Handler (hs ((elapse_passes lags s).1 hmet)) hover lags hmet
    · exact ⟨(elapse_passes lags s).1 hmet, fun _ => .single ⟨hinv, .inr ⟨hover, lags, rfl⟩⟩,
        fun hprog => (State.programming_of_frame (elapse_passes lags s).2.1).trans hprog⟩
  | tc1 callback lags =>
    obtain ⟨⟨hcpcs, henabled⟩, rfl⟩ : (s.cpcs = true ∧ s.cpcsEnabled = true) ∧
        (tc1Handler callback).elapse State.tick lags s = s' := by
      simpa [irq] using h
    have hmain := fun hmet => mainInv_tc1Handler
      (hs (keepsMet_tick.elapse (acts_tc1Handler callback) lags s hmet)) hcpcs henabled callback
      lags hmet
    refine ⟨fun hmet => (hmain hmet).2.1, fun hmet => ?_⟩
    refine ⟨keepsMet_tick.elapse (acts_tc1Handler callback) lags s hmet, fun htrue => ?_,
      fun _ => (hmain hmet).2.2⟩
    rw [(hmain hmet).1] at htrue
    exact Bool.noConfusion htrue

theorem mainInv_of_run {c : Config State} {ls : List (Label Irq Call)}
    (h : machine.Run .any (.idle .init) ls c) (hmet : c.state.met = true) :
    mainInv c.state ∧ (c.rest = .ret () → c.state.programming = false) := by
  have hinit : mainRely.inv State.init := fun _ => by
    refine ⟨?_, rfl, nofun⟩
    constructor
    case settled => exact fun _ _ => .inl ⟨rfl, rfl, ⟨rfl, rfl, rfl⟩, Nat.le_refl _⟩
    case runs => exact fun run hrun => absurd hrun List.not_mem_nil
    all_goals decide
  have hsound := Machine.Run.sound (r := mainRely)
    (Q := fun s => s.met = true → s.programming = false) (c := .idle .init)
    (fun i s s' hs _ hi => mainRely_irq i s s' hs hi) (fun k s hs hQ _ => ?_) hinit
    (fun t hst _ hmet => (hst hmet).2.2 rfl) h
  · refine ⟨hsound.1 hmet, fun hrest => ?_⟩
    have hsat := hsound.2
    rw [hrest] at hsat
    exact hsat c.state (mainRely.refl _) hsound.1 hmet
  · cases k with
    | rtimerSet rtimer time =>
      by_cases hmet : s.met = true
      · exact mainContext.sat_rtimerSet (hQ hmet)
      · exact mainContext.sat_unmet (acts_rtimerSet rtimer time) (by simpa using hmet)

end Main

section Service

/-- The callback of a request runs at most once, and at its time or later. -/
structure State.RunsOnce (s : State) : Prop where
  once : (s.runs.map CallbackRun.request).Nodup
  late : ∀ run ∈ s.runs, s.requests[run.request]? = some run.time ∧ run.time.toNat ≤ run.tick

/-- The hardware is armed for the pending timer, and the newest request has run or is the pending
one. -/
structure State.Serves (s : State) : Prop where
  armed : ∀ rtimer, s.nextRtimer = some rtimer →
    s.nextRtimerTime = (s.rtimers rtimer).time ∧ s.Armed
  newest : ∀ request, request + 1 = s.requests.length →
    (∃ run ∈ s.runs, run.request = request) ∨
      ∃ rtimer, s.nextRtimer = some rtimer ∧ (s.rtimers rtimer).func = request

theorem Inv.runsOnce (h : Inv s) : s.RunsOnce := by
  refine ⟨?_, h.runs⟩
  rw [h.order]
  exact List.nodup_range

theorem Inv.serves (h : Inv s) (hprog : s.programming = false) (hhand : s.handling = false) :
    s.Serves := by
  rcases h.settled hprog hhand with hquiet | ⟨rtimer, hpending, harmed⟩
  · constructor
    · intro rtimer hnext
      exact absurd hnext (by rw [hquiet.next]; simp)
    · intro request hrequest
      have hmem : request ∈ s.runs.map CallbackRun.request := by
        rw [h.order, List.mem_range, hquiet.ran]
        omega
      exact .inl (List.mem_map.1 hmem)
  · constructor
    · intro rtimer' hnext
      obtain rfl : rtimer = rtimer' := Option.some.inj (hpending.next.symm.trans hnext)
      exact ⟨hpending.timer.symm, harmed⟩
    · intro request hrequest
      have hnewest := hpending.newest
      exact .inr ⟨rtimer, hpending.next, by omega⟩

/-- In every run in which the conditions on the timer are met, the callbacks run once and not
before their time, and between the calls of `rtimer_set` the service is ready for the newest
request. -/
theorem timerService_of_run {c : Config State} {ls : List (Label Irq Call)}
    (h : machine.Run .any (.idle .init) ls c) (hmet : c.state.met = true) :
    c.state.RunsOnce ∧ (c.rest = .ret () → c.state.Serves) := by
  obtain ⟨hinv, hidle⟩ := mainInv_of_run h hmet
  exact ⟨hinv.1.runsOnce, fun hrest => hinv.1.serves (hidle hrest) hinv.2.1⟩

def ticks (n : Nat) : List (Label Irq Call) :=
  List.replicate n (.irq .tick)

/-- A timer is set, and its callback, which runs one tick late, sets the next one. -/
def chained : List (Label Irq Call) :=
  callFor (.rtimerSet 0 20) 12 ++ ticks 20 ++ [.irq (.tc1 [⟨0, 30⟩] [1])] ++ ticks 9 ++
    [.irq (.tc1 [] [])]

theorem timerService_of_run_chained :
    ∃ c, machine.Run .any (.idle .init) chained c ∧ c.rest = .ret () ∧
      c.state.runs = [⟨0, 20, 21⟩, ⟨1, 30, 30⟩] ∧ c.state.RunsOnce ∧ c.state.Serves := by
  obtain ⟨c, hrun, hidle, hruns, hmet⟩ := Machine.exists_idle_run_of_exec machine Guard.any
    (.idle .init) chained
    (fun s => s.runs = [⟨0, 20, 21⟩, ⟨1, 30, 30⟩] ∧ s.met = true) (by decide +kernel)
    (by decide +kernel)
  have hserved := timerService_of_run hrun hmet
  exact ⟨c, hrun, hidle, hruns, hserved.1, hserved.2 hidle⟩

/-- A timer replaces the pending one. -/
def replaced : List (Label Irq Call) :=
  callFor (.rtimerSet 0 20) 12 ++ callFor (.rtimerSet 0 40) 5 ++ ticks 20 ++ [.irq (.tc1 [] [])]

/-- A timer is set for a time that has passed. -/
def missed : List (Label Irq Call) :=
  ticks 5 ++ callFor (.rtimerSet 0 2) 7

/-- The new callback runs at the time of the replaced timer, before its own; and the hardware is
not armed for a time that has passed. -/
theorem not_served_replaced :
    (∃ c, machine.Run .any (.idle .init) replaced c ∧
      c.state.runs = [⟨1, 40, 20⟩] ∧ ¬ c.state.RunsOnce) ∧
    ∃ c, machine.Run .any (.idle .init) missed c ∧ c.rest = .ret () ∧
      c.state.nextRtimer = some 0 ∧ ¬ c.state.Serves := by
  constructor
  · obtain ⟨c, hrun, hruns⟩ := Machine.exists_run_of_exec machine Guard.any (.idle .init)
      replaced (fun s => s.runs = [⟨1, 40, 20⟩]) (by decide +kernel) (by decide +kernel)
    refine ⟨c, hrun, hruns, fun honce => ?_⟩
    have hlate := (honce.late ⟨1, 40, 20⟩ (by rw [hruns]; exact List.mem_singleton.2 rfl)).2
    exact absurd hlate (by decide)
  · obtain ⟨c, hrun, hidle, hnext, henabled, hnow, htime⟩ := Machine.exists_idle_run_of_exec
      machine Guard.any (.idle .init) missed
      (fun s => s.nextRtimer = some 0 ∧ s.cpcsEnabled = false ∧ s.now = 5 ∧
        s.nextRtimerTime = 2) (by decide +kernel) (by decide +kernel)
    refine ⟨c, hrun, hidle, hnext, fun hserves => ?_⟩
    rcases (hserves.armed 0 hnext).2 with h | h | h
    · exact absurd h.enabled (by rw [henabled]; simp)
    · exact absurd h.enabled (by rw [henabled]; simp)
    · have hdue := h.2.due
      rw [hnow, htime] at hdue
      exact absurd hdue (by decide)

end Service

end Calipso.Rtimer
