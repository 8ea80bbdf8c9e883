import Calipso.Rtimer.Interference

/-!
# Setting a timer

`rtimer_set` and `rtimer_arch_schedule` arm the hardware for the new timer, whatever the clock and
the overflow handler do in the meantime, if the conditions on the timer are met. Main code and
callbacks are treated at once: a `Context` is one or the other.
-/

namespace Calipso.Rtimer

open Interrupt

variable {s t u : State} {time : RtimerClock} {rtimer : Nat}

section Context

/-- Code that may set a timer: main code, with ticks and the overflow handler in between, or a
callback, with ticks only. -/
structure Context (r : Rely State) (I : State → Prop) : Prop extends Conditional State.met r I where
  env : ∀ {s t : State}, r.rel s t → t.met = true → s.programming = true → Env s t
  calm : ∀ {s t : State}, r.rel s t → t.met = true → s.programming = false →
    t.programming = false
  toInv : ∀ {s : State}, I s → Inv s
  handling : ∀ {s : State}, I s → s.handling = false
  ofInv : ∀ {s t : State}, I s → Inv t → t.handling = s.handling →
    (t.programming = true → t.cpcs = false ∨ (s.programming = true ∧ t.cpcs = s.cpcs)) → I t

variable {r : Rely State} {I : State → Prop}

theorem acts_rtimerArchSchedule (time : RtimerClock) :
    Acts KeepsMet (rtimerArchSchedule time) := by
  have hsame : ∀ {f : State → State}, (∀ s, (f s).met = s.met) → KeepsMet f := KeepsMet.of_eq
  have hread : KeepsMet id := hsame fun _ => rfl
  have hfirst : ∀ timeMsb, KeepsMet (readFirst time timeMsb) := fun _ _ h => (note_met h).1
  unfold rtimerArchSchedule
  refine .bind (.modify (hsame fun _ => rfl)) fun _ => .bind (.read hread) fun timeMsb => ?_
  refine .bind (.atomically (hfirst timeMsb)) fun tc => ?_
  dsimp only
  split
  · refine .bind (.read hread) fun _ => .bind (.atomically keepsMet_note) fun _ => ?_
    refine .bind (.modify (hsame fun _ => rfl)) fun _ => ?_
    exact .bind (.modify (hsame fun _ => rfl)) fun _ => .modify (hsame fun _ => rfl)
  · exact .ret _

/-- The first reading of the clock is not ahead of the time. -/
theorem toNat_clock_le {timeMsb : BitVec 64} (hmsb : timeMsb.toNat ≤ s.now / 2 ^ 32)
    (hline : s.now < 2 ^ 64 - 2 ^ 32) :
    (clock timeMsb s.tcReadTc).toNat ≤ s.now ∧
      (clock timeMsb s.tcReadTc).toNat % 2 ^ 32 = s.now % 2 ^ 32 := by
  rw [toNat_clock (by omega), toNat_tcReadTc]
  omega

/-- After the first reading a long wait is one that the overflow handler takes care of. -/
theorem armed_of_long {timeMsb : BitVec 64} (hinv : Inv s) (hshape : s.Shape)
    (hcovered : s.timeMsb = timeMsb ∨ s.Covered) (htime : s.nextRtimerTime = time)
    (hsched : s.Schedulable time) (hlong : fits (time - clock timeMsb s.tcReadTc) = false) :
    s.Armed := by
  subst htime
  rcases hshape with hoff | hrunning | hstruck
  · right; right
    refine ⟨hoff, ?_⟩
    have hdue : s.now < s.nextRtimerTime.toNat := by
      rcases hsched with hcpcs | h
      · exact absurd hcpcs (by rw [hoff.cpcs]; nofun)
      · exact h.1
    rcases hcovered with hmsb | hrunning | hstruck | hpast | hahead
    · refine ⟨hdue, ?_⟩
      cases hover : s.overflow with
      | true => exact .inl rfl
      | false =>
        right
        rw [← hmsb] at hlong
        have hclock := toNat_clock_handling hinv hover
        have hwait := toNat_wait (show (clock s.timeMsb s.tcReadTc).toNat ≤
          s.nextRtimerTime.toNat by omega)
        rw [← Bool.not_eq_true, fits_iff, hwait] at hlong
        omega
    · exact absurd hrunning.enabled (by rw [hoff.enabled]; nofun)
    · exact absurd hstruck.enabled (by rw [hoff.enabled]; nofun)
    · exact absurd hpast (Nat.not_le.2 hdue)
    · exact hahead
  · exact .inl hrunning
  · exact .inr (.inl hstruck)

/-- A short wait at the first reading is one of less than `2 ^ 32` ticks. -/
theorem near_of_short {timeMsb : BitVec 64} (hinv : Inv s) (hshape : s.Shape)
    (hmsb : timeMsb.toNat ≤ s.now / 2 ^ 32) (htime : s.nextRtimerTime = time)
    (hsched : s.Schedulable time) (hshort : fits (time - clock timeMsb s.tcReadTc) = true) :
    s.Near := by
  subst htime
  refine ⟨hshape, ?_⟩
  rcases hsched with hcpcs | ⟨hdue, hfull⟩
  · rcases hshape with h | h | h
    · exact absurd hcpcs (by rw [h.cpcs]; nofun)
    · exact absurd hcpcs (by rw [h.cpcs]; nofun)
    · exact .inl h
  · right
    have hclock := (toNat_clock_le hmsb hinv.line).1
    rw [fits_iff, toNat_wait (by omega)] at hshort
    omega

/-- The compare value that the second reading gives. -/
theorem toNat_setWidth_wait {timeMsb : BitVec 64} (hmsb : timeMsb.toNat ≤ s.now / 2 ^ 32)
    (hline : s.now < 2 ^ 64 - 2 ^ 32) (hdue : s.now < time.toNat)
    (hnear : time.toNat < s.now + 2 ^ 32) :
    ((time - clock timeMsb s.tcReadTc).setWidth 32).toNat = time.toNat - s.now := by
  have hclock := toNat_clock_le hmsb hline
  rw [BitVec.toNat_setWidth, toNat_wait (by omega)]
  omega

/-- The compare register after the second reading. -/
theorem loaded_of_written {timeMsb : BitVec 64} (hmsb : timeMsb.toNat ≤ t.now / 2 ^ 32)
    (hline : t.now < 2 ^ 64 - 2 ^ 32) (hshape : s.Shape) (htime : s.nextRtimerTime = time)
    (hlater : t.now ≤ s.now)
    (hread : s.Struck ∨ (t.now < time.toNat ∧ time.toNat < t.now + 2 ^ 32)) :
    (tcWriteRc (time - clock timeMsb t.tcReadTc) t.now s).Loaded := by
  have hstruck : s.Struck → (tcWriteRc (time - clock timeMsb t.tcReadTc) t.now s).Loaded :=
    fun h => .inl ⟨h.enabled, h.cpcs, h.due⟩
  rcases hread with h | ⟨hdue, hnear⟩
  · exact hstruck h
  · have hrc : (tcWriteRc (time - clock timeMsb t.tcReadTc) t.now s).rc = time.toNat - t.now :=
      toNat_setWidth_wait hmsb hline hdue hnear
    have hvalid : (tcWriteRc (time - clock timeMsb t.tcReadTc) t.now s).RcValid := by
      refine ⟨?_, by rw [hrc]; omega, by rw [hrc]; omega, hlater⟩
      rw [hrc]
      show t.now + (time.toNat - t.now) = s.nextRtimerTime.toNat
      rw [htime]
      omega
    rcases hshape with h | h | h
    · exact .inr ⟨h.cpcs, hvalid⟩
    · exact .inr ⟨h.cpcs, hvalid⟩
    · exact hstruck h

/-- The auxiliary counter is started. -/
theorem started_of_ready (h : s.Ready) : (startScheduled s).Running ∨ (startScheduled s).Struck := by
  rcases h with h | ⟨henabled, hcpcs, hvalid⟩
  · right
    exact ⟨h.enabled, by simp [startScheduled, setProgramming, tcStart, h.cpcs], h.due⟩
  · left
    have hpos := Nat.pos_iff_ne_zero.1 hvalid.pos
    exact ⟨henabled, by simp [startScheduled, setProgramming, tcStart, hcpcs, hpos],
      hvalid.congr rfl, 0, rfl, hvalid.pos, hvalid.read⟩

/-- What the interference leaves alone between two actions of `rtimer_arch_schedule`. -/
theorem Context.keep (hr : Context r I) (hst : r.rel s t) (ht : t.met = true)
    (hprog : s.programming = true) (htime : s.nextRtimerTime = time)
    (hpending : s.Pending rtimer time) :
    t.programming = true ∧ t.nextRtimerTime = time ∧ t.Pending rtimer time ∧ s.now ≤ t.now := by
  have hpasses := (hr.env hst ht hprog).passes
  exact ⟨(State.programming_of_frame hpasses.2.1).trans hprog,
    (State.time_of_frame hpasses.2.1).trans htime,
    hpending.congr (State.service_of_frame hpasses.2.1), hpasses.2.2⟩

/-- The end of `rtimer_arch_schedule`, from the second reading on. -/
theorem Context.sat_program (hr : Context r I) (hprog : s.programming = true)
    (htime : s.nextRtimerTime = time) (hpending : s.Pending rtimer time) (hnear : s.Near)
    {p : Prog State Unit} (hp : p = (do
      let timeMsb ← Prog.read State.timeMsb
      let (tc, asOf) ← Prog.atomically (fun s => (s.tcReadTc, s.now)) (State.note (State.ToCome time))
      Prog.modify (tcWriteRc (time - clock timeMsb tc) asOf)
      Prog.modify tcEnableInterrupt
      Prog.modify startScheduled)) (hacts : Acts KeepsMet p) :
    Sat r p (fun _ u => u.met = true → u.programming = false) s := by
  subst hp
  have hc := hr.toConditional
  have hinv : ∀ {v w : State}, I v → w.programming = true → w.handling = v.handling →
      w.cpcs = v.cpcs → v.programming = true →
      (w.timeMsb, w.overflow, w.now) = (v.timeMsb, v.overflow, v.now) →
      (w.requests, w.runs) = (v.requests, v.runs) → I w := by
    intro v w hIv hw hhand hcpcs hv hclock hmade
    refine hr.ofInv hIv ((hr.toInv hIv).congr hclock hmade fun hfalse => ?_) hhand
      fun _ => .inr ⟨hv, hcpcs⟩
    exact absurd hfalse (by rw [hw]; nofun)
  refine hc.sat_act hacts fun a hsa hma _ hIa _ => ⟨hIa, ?_⟩
  obtain ⟨hprog_a, htime_a, hpend_a, -⟩ := hr.keep hsa hma hprog htime hpending
  have hnear_a := (hr.env hsa hma hprog).near hma hprog hnear
  refine hc.sat_act (hacts.2 a) fun b hab hmb _ hIb hnote => ?_
  obtain ⟨hprog_b, htime_b, hpend_b, hlater_b⟩ := hr.keep hab hmb hprog_a htime_a hpend_a
  have hnear_b := (hr.env hab hmb hprog_a).near hmb hprog_a hnear_a
  have hmsb : a.timeMsb.toNat ≤ b.now / 2 ^ 32 := by
    have hclock := (hr.toInv hIa).clock
    have hlap := Nat.div_le_div_right (c := 2 ^ 32) (show a.now ≤ b.now from hlater_b)
    omega
  have hline := (hr.toInv hIb).line
  refine ⟨hinv hIb hprog_b rfl rfl hprog_b rfl rfl, ?_⟩
  refine hc.sat_act ((hacts.2 a).2 b) fun c hbc hmc _ hIc _ => ?_
  have hbc' := hr.env hbc hmc hprog_b
  obtain ⟨hprog_c, htime_c, hpend_c, hlater_c⟩ :=
    hr.keep hbc hmc hprog_b htime_b (hpend_b.congr rfl)
  have hshape_c : c.Shape := hbc'.shape hmc hprog_b (hnear_b.1.congr rfl)
  have hread : c.Struck ∨ (b.now < time.toNat ∧ time.toNat < b.now + 2 ^ 32) := by
    have hstruck : b.Struck → c.Struck := fun h => hbc'.struck hmc hprog_b (h.congr rfl)
    rcases hnear_b.2 with h | hlt
    · exact .inl (hstruck h)
    · rcases (note_met hnote).2 with hcpcs | hdue
      · rcases hnear_b.1 with h | h | h
        · exact absurd hcpcs (by rw [h.cpcs]; nofun)
        · exact absurd hcpcs (by rw [h.cpcs]; nofun)
        · exact .inl (hstruck h)
      · exact .inr ⟨hdue, htime_b ▸ hlt⟩
  have hloaded : (tcWriteRc (time - clock a.timeMsb b.tcReadTc) b.now c).Loaded :=
    loaded_of_written hmsb hline hshape_c htime_c hlater_c hread
  refine ⟨hinv hIc hprog_c rfl rfl hprog_c rfl rfl, ?_⟩
  refine hc.sat_act (((hacts.2 a).2 b).2 c) fun d hcd hmd _ hId _ => ?_
  obtain ⟨hprog_d, htime_d, hpend_d, -⟩ := hr.keep hcd hmd hprog_c htime_c (hpend_c.congr rfl)
  have hloaded_d := (hr.env hcd hmd hprog_c).loaded hmd hprog_c hloaded
  have hready : (tcEnableInterrupt d).Ready := by
    rcases hloaded_d with h | ⟨hcpcs, hvalid⟩
    · exact .inl ⟨rfl, h.cpcs, h.due⟩
    · exact .inr ⟨rfl, hcpcs, hvalid.congr rfl⟩
  refine ⟨hinv hId hprog_d rfl rfl hprog_d rfl rfl, ?_⟩
  refine hc.sat_act ((((hacts.2 a).2 b).2 c).2 d) fun e hde hme _ hIe _ => ?_
  obtain ⟨hprog_e, htime_e, hpend_e, -⟩ := hr.keep hde hme hprog_d htime_d (hpend_d.congr rfl)
  have hstarted := started_of_ready ((hr.env hde hme hprog_d).ready hme hprog_d hready)
  have hsettled : (startScheduled e).Settled := by
    refine .inr ⟨rtimer, ?_, hstarted.imp_right .inl⟩
    show (startScheduled e).Pending rtimer e.nextRtimerTime
    rw [htime_e]
    exact hpend_e.congr rfl
  have hend : Inv (startScheduled e) := (hr.toInv hIe).congr rfl rfl fun _ _ => hsettled
  refine ⟨hr.ofInv hIe hend rfl nofun, ?_⟩
  exact hc.sat_ret fun u hu hmu _ => hr.calm hu hmu rfl

/-- `rtimer_arch_schedule` for the pending timer. -/
theorem Context.sat_rtimerArchSchedule (hr : Context r I) (rtimer : Nat)
    (hstart : ∀ u, r.rel s u → u.met = true → I u → I (setNextRtimerTime time u) ∧
      u.Pending rtimer time ∧ (setNextRtimerTime time u).Shape) :
    Sat r (rtimerArchSchedule time) (fun _ u => u.met = true → u.programming = false) s := by
  have hc := hr.toConditional
  have hacts := acts_rtimerArchSchedule time
  refine hc.sat_act hacts fun a hsa hma _ hIa _ => ?_
  obtain ⟨hI, hpend, hshape⟩ := hstart a hsa hma hIa
  have hpend' : (setNextRtimerTime time a).Pending rtimer time := hpend.congr rfl
  refine ⟨hI, ?_⟩
  refine hc.sat_act (hacts.2 a) fun b hab hmb _ hIb _ => ⟨hIb, ?_⟩
  obtain ⟨hprog_b, htime_b, hpend_b, -⟩ := hr.keep hab hmb rfl rfl hpend'
  have hshape_b := (hr.env hab hmb rfl).shape hmb rfl hshape
  refine hc.sat_act ((hacts.2 a).2 b) fun c hbc hmc _ hIc hnote => ?_
  have hbc' := hr.env hbc hmc hprog_b
  obtain ⟨hprog_c, htime_c, hpend_c, hlater⟩ := hr.keep hbc hmc hprog_b htime_b hpend_b
  have hshape_c := hbc'.shape hmc hprog_b hshape_b
  have hcovered := hbc'.covered hmc hprog_b hshape_b (.inl rfl)
  have hsched := (note_met (P := State.Schedulable time) hnote).2
  have hinv := hr.toInv hIc
  have hacts' := ((hacts.2 a).2 b).2 c
  -- The first reading decides whether the counter is started.
  cases hfits : fits (time - clock b.timeMsb c.tcReadTc) with
  | true =>
    have hmsb : b.timeMsb.toNat ≤ c.now / 2 ^ 32 := by
      have hclock := (hr.toInv hIb).clock
      have hlap := Nat.div_le_div_right (c := 2 ^ 32) (show b.now ≤ c.now from hlater)
      omega
    have hnear := near_of_short hinv hshape_c hmsb htime_c hsched hfits
    have hprog' : (readFirst time b.timeMsb c).programming = true := hfits
    have hI' : I (readFirst time b.timeMsb c) := by
      refine hr.ofInv hIc (hinv.congr rfl rfl fun hfalse => ?_) rfl
        fun _ => .inr ⟨hprog_c, rfl⟩
      exact absurd hfalse (by rw [hprog']; nofun)
    refine ⟨hI', ?_⟩
    dsimp only [id_eq, Prog.bind] at hacts' ⊢
    rw [if_pos hfits] at hacts' ⊢
    exact hr.sat_program hprog' htime_c (hpend_c.congr rfl)
      (hnear.congr rfl) rfl hacts'
  | false =>
    have harmed := armed_of_long hinv hshape_c hcovered htime_c hsched hfits
    have hend : Inv (readFirst time b.timeMsb c) := by
      refine hinv.congr rfl rfl fun _ _ => .inr ⟨rtimer, ?_, ?_⟩
      · show (readFirst time b.timeMsb c).Pending rtimer c.nextRtimerTime
        rw [htime_c]
        exact hpend_c.congr rfl
      · exact harmed.imp (fun h => h.congr rfl)
          fun h => h.imp (fun h => h.congr rfl) fun h => ⟨h.1.congr rfl, h.2.due, h.2.overflow⟩
    have hprog' : (readFirst time b.timeMsb c).programming = false := hfits
    refine ⟨hr.ofInv hIc hend rfl fun htrue => ?_, ?_⟩
    · exact absurd htrue (by rw [hprog']; nofun)
    · dsimp only [id_eq, Prog.bind]
      rw [if_neg (by rw [hfits]; nofun)]
      exact hc.sat_ret fun u hu hmu _ => hr.calm hu hmu hprog'

theorem acts_rtimerSet (rtimer : Nat) (time : RtimerClock) :
    Acts KeepsMet (rtimerSet rtimer time) := by
  have hsame : ∀ {f : State → State}, (∀ s, (f s).met = s.met) → KeepsMet f := KeepsMet.of_eq
  have henter : KeepsMet enterRtimerSet := fun _ h => (note_met h).1
  unfold rtimerSet
  refine .bind (.atomically henter) fun first => .bind (.modify (hsame fun _ => rfl)) fun _ => ?_
  refine .bind (.modify (hsame fun _ => rfl)) fun _ => .bind (.modify (hsame fun _ => rfl)) ?_
  intro _
  split
  · exact acts_rtimerArchSchedule time
  · exact .modify (hsame fun _ => rfl)

/-- The timer is filled in for the newest request, and is not yet the pending one. -/
structure State.Filled (s : State) (rtimer : Nat) (time : RtimerClock) : Prop where
  request : s.requests[(s.rtimers rtimer).func]? = some time
  ran : s.runs.length = (s.rtimers rtimer).func
  newest : (s.rtimers rtimer).func + 1 = s.requests.length

theorem State.Filled.congr (h : s.Filled rtimer time) (hservice : t.service = s.service) :
    t.Filled rtimer time := by
  simp only [State.service, Prod.mk.injEq] at hservice
  obtain ⟨-, hrtimers, hrequests, hruns⟩ := hservice
  constructor
  · rw [hrtimers, hrequests, h.request]
  · rw [hrtimers, hruns, h.ran]
  · rw [hrtimers, hrequests, h.newest]

theorem filled_setFunc (hran : s.runs.length = s.requests.length) :
    (setFunc rtimer time s).Filled rtimer time := by
  constructor
  · simp [setFunc]
  · simpa [setFunc] using hran
  · simp [setFunc]

theorem State.Filled.setTime (h : s.Filled rtimer time) :
    (setTime rtimer time s).Filled rtimer time := by
  constructor
  · simpa [Rtimer.setTime] using h.request
  · simpa [Rtimer.setTime] using h.ran
  · simpa [Rtimer.setTime] using h.newest

theorem Inv.setFunc (h : Inv s) (hprog : s.programming = true) :
    Inv (setFunc rtimer time s) := by
  constructor
  case clock => exact h.clock
  case line => exact h.line
  case order => exact h.order
  case made => exact h.made.trans (by simp [Rtimer.setFunc])
  case runs =>
    intro run hrun
    obtain ⟨hrequest, htime⟩ := h.runs run hrun
    have hlt := (List.getElem?_eq_some_iff.1 hrequest).1
    exact ⟨(List.getElem?_append_left hlt).trans hrequest, htime⟩
  case settled =>
    intro hfalse
    have hfalse' : s.programming = false := hfalse
    rw [hprog] at hfalse'
    exact Bool.noConfusion hfalse'

/-- `rtimer_set` arms the hardware for the timer. -/
theorem Context.sat_rtimerSet (hr : Context r I) (hs : s.programming = false) :
    Sat r (rtimerSet rtimer time) (fun _ u => u.met = true → u.programming = false) s := by
  have hc := hr.toConditional
  have hacts := acts_rtimerSet rtimer time
  have hkeep : ∀ {v w : State}, I v → w.programming = true → w.handling = v.handling →
      w.cpcs = v.cpcs → v.programming = true →
      (w.timeMsb, w.overflow, w.now) = (v.timeMsb, v.overflow, v.now) →
      (w.requests, w.runs) = (v.requests, v.runs) → I w := by
    intro v w hIv hw hhand hcpcs hv hclock hmade
    refine hr.ofInv hIv ((hr.toInv hIv).congr hclock hmade fun hfalse => ?_) hhand
      fun _ => .inr ⟨hv, hcpcs⟩
    exact absurd hfalse (by rw [hw]; nofun)
  refine hc.sat_act hacts fun a hsa hma _ hIa hnote => ?_
  have hfree : a.nextRtimer = none := (note_met (P := State.Free) hnote).2
  have hquiet : a.Quiet := by
    rcases (hr.toInv hIa).settled (hr.calm hsa hma hs) (hr.handling hIa) with h | ⟨_, h, -⟩
    · exact h
    · exact absurd h.next (by rw [hfree]; nofun)
  have henter : I (enterRtimerSet a) := by
    refine hr.ofInv hIa ((hr.toInv hIa).congr rfl rfl fun hfalse => ?_) rfl
      fun _ => .inl hquiet.off.cpcs
    exact absurd hfalse (by simp [enterRtimerSet, setProgramming])
  have hstale : (enterRtimerSet a).Stale := ⟨hquiet.off.congr rfl, hquiet.due⟩
  refine ⟨henter, ?_⟩
  refine hc.sat_act (hacts.2 a) fun b hab hmb _ hIb _ => ?_
  have hab' := hr.env hab hmb rfl
  have hprog_b : b.programming = true := State.programming_of_frame hab'.passes.2.1
  have hservice := State.service_of_frame hab'.passes.2.1
  simp only [State.service, Prod.mk.injEq] at hservice
  have hran : b.runs.length = b.requests.length := by
    rw [hservice.2.2.1, hservice.2.2.2]
    exact hquiet.ran
  have hstale_b := (hab'.stale hmb rfl hstale).congr (t := setFunc rtimer time b) rfl
  have hIb' : I (setFunc rtimer time b) :=
    hr.ofInv hIb ((hr.toInv hIb).setFunc hprog_b) rfl fun _ => .inr ⟨hprog_b, rfl⟩
  refine ⟨hIb', ?_⟩
  refine hc.sat_act ((hacts.2 a).2 b) fun c hbc hmc _ hIc _ => ?_
  have hbc' := hr.env hbc hmc hprog_b
  have hprog_c := (State.programming_of_frame hbc'.passes.2.1).trans hprog_b
  have hfilled : (setFunc rtimer time b).Filled rtimer time := filled_setFunc hran
  have hfilled_c := hfilled.congr (State.service_of_frame hbc'.passes.2.1)
  have hstale_c := (hbc'.stale hmc hprog_b hstale_b).congr (t := setTime rtimer time c) rfl
  refine ⟨hkeep hIc hprog_c rfl rfl hprog_c rfl rfl, ?_⟩
  refine hc.sat_act (((hacts.2 a).2 b).2 c) fun d hcd hmd _ hId _ => ?_
  have hcd' := hr.env hcd hmd hprog_c
  have hprog_d := (State.programming_of_frame hcd'.passes.2.1).trans hprog_c
  have hservice_d := State.service_of_frame hcd'.passes.2.1
  have hfilled_d := hfilled_c.setTime.congr hservice_d
  have htimer : (d.rtimers rtimer).time = time := by
    simp only [State.service, Prod.mk.injEq] at hservice_d
    rw [hservice_d.2.1]
    simp [setTime]
  have hpending : (setNextRtimer (some rtimer) d).Pending rtimer time :=
    ⟨rfl, htimer, hfilled_d.request, hfilled_d.ran, hfilled_d.newest⟩
  have hstale_d := (hcd'.stale hmd hprog_c hstale_c).congr
    (t := setNextRtimer (some rtimer) d) rfl
  refine ⟨hkeep hId hprog_d rfl rfl hprog_d rfl rfl, ?_⟩
  dsimp only [id_eq, Prog.bind]
  rw [if_pos (decide_eq_true hfree)]
  refine hr.sat_rtimerArchSchedule rtimer fun e hde hme hIe => ?_
  have hde' := hr.env hde hme hprog_d
  have hprog_e := (State.programming_of_frame hde'.passes.2.1).trans hprog_d
  have hstale_e := hde'.stale hme hprog_d hstale_d
  refine ⟨hkeep hIe rfl rfl rfl hprog_e rfl rfl,
    hpending.congr (State.service_of_frame hde'.passes.2.1), .inl ?_⟩
  exact ⟨hstale_e.1.enabled, hstale_e.1.cpcs, hstale_e.1.counter⟩

end Context

section Callback

/-- The invariant while no overflow is handled. -/
def callbackInv (s : State) : Prop :=
  Inv s ∧ s.handling = false

/-- The interference with a callback. -/
def callbackRely : Rely State where
  inv s := s.met = true → callbackInv s
  rel := Relation.ReflTransGen fun s t => (s.met = true → callbackInv s) ∧ t = s.tick
  refl _ := .refl
  trans := .trans

theorem callbackRely_tick (h : callbackRely.inv s) :
    callbackRely.inv s.tick ∧ callbackRely.rel s s.tick := by
  refine ⟨fun hmet => ?_, .single ⟨h, rfl⟩⟩
  obtain ⟨hs, hcond⟩ := tick_met hmet
  exact ⟨(h hs).1.tick hcond, (h hs).2⟩

theorem ticks_of_callbackRely (h : callbackRely.rel s t) : Ticks s t :=
  Relation.ReflTransGen.mono (fun _ _ hstep => ⟨fun hmet => (hstep.1 hmet).1, hstep.2⟩) _ _ h

theorem callbackContext : Context callbackRely callbackInv where
  inv _ := Iff.rfl
  met h := (ticks_of_callbackRely h).met
  env h _ _ := (ticks_of_callbackRely h).env
  calm h _ hs :=
    (State.programming_of_frame (ticks_of_callbackRely h).env.passes.2.1).trans hs
  toInv h := h.1
  handling h := h.2
  ofInv h ht hhand _ := ⟨ht, hhand.trans h.2⟩

/-- The timers that a callback sets. -/
theorem sat_callback (callback : List Setting) (hs : s.programming = false)
    (hinv : callbackRely.inv s) :
    Sat callbackRely (Prog.forEach (fun set => rtimerSet set.rtimer set.time) callback)
      (fun _ u => u.met = true → u.programming = false) s := by
  induction callback generalizing s with
  | nil => exact callbackContext.sat_ret fun u hu hmu _ => callbackContext.calm hu hmu hs
  | cons set callback ih =>
    refine callbackContext.seq (callbackContext.sat_rtimerSet hs) hinv
      (fun _ => .forEach (fun set => acts_rtimerSet set.rtimer set.time) callback)
      fun _ t hmt hIt ht => ih ht fun _ => hIt

/-- The callback runs at the time of the timer or later. -/
theorem Inv.runFunc (h : Inv s) (hnext : s.nextRtimer = none) (hfilled : s.Filled rtimer time)
    (htimer : (s.rtimers rtimer).time = time) (htime : s.nextRtimerTime = time)
    (hstale : s.Stale) : Inv (runFunc rtimer s) := by
  have hruns : (Rtimer.runFunc rtimer s).runs =
      s.runs ++ [⟨(s.rtimers rtimer).func, (s.rtimers rtimer).time, s.now⟩] := rfl
  constructor
  case clock => exact h.clock
  case line => exact h.line
  case order =>
    rw [hruns, List.map_append, h.order, List.length_append, List.map_singleton,
      List.length_singleton, List.range_succ, hfilled.ran]
  case made =>
    have hnewest := hfilled.newest
    have hran := hfilled.ran
    rw [hruns, List.length_append, List.length_singleton]
    show s.runs.length + 1 ≤ s.requests.length
    omega
  case runs =>
    intro run hrun
    rw [hruns, List.mem_append, List.mem_singleton] at hrun
    rcases hrun with hrun | rfl
    · exact h.runs run hrun
    · refine ⟨hfilled.request.trans (congrArg some htimer.symm), ?_⟩
      have hdue := hstale.2
      rwa [htime, ← htimer] at hdue
  case settled =>
    refine fun _ _ => .inl ⟨hnext, ?_, hstale.1.congr rfl, hstale.2⟩
    rw [hruns, List.length_append, List.length_singleton]
    show s.runs.length + 1 = s.requests.length
    rw [hfilled.ran, hfilled.newest]

end Callback

end Calipso.Rtimer
