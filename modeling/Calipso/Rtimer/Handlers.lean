import Calipso.Rtimer.Armed

/-!
# The handlers of the timers

The overflow handler keeps every status of the registers, and arms the auxiliary counter if the
time lies less than `2 ^ 32` ticks ahead. What is proved of code is proved for the runs in which
the conditions are met, so from an action on that breaks a condition nothing is left to prove.
-/

namespace Calipso.Rtimer

open Interrupt

variable {s t u : State}

section Met

/-- A broken condition stays broken. -/
abbrev KeepsMet : (State → State) → Prop :=
  Interrupt.KeepsMet State.met

theorem note_met {P : State → Prop} [DecidablePred P] (h : (s.note P).met = true) :
    s.met = true ∧ P s := by
  have h' : (s.met && decide (P s)) = true := h
  rwa [Bool.and_eq_true, decide_eq_true_eq] at h'

theorem keepsMet_note {P : State → Prop} [DecidablePred P] : KeepsMet (State.note P) :=
  fun _ h => (note_met h).1

end Met

section Ticks

/-- Time passes. -/
def Ticks : State → State → Prop :=
  Relation.ReflTransGen fun s t => (s.met = true → Inv s) ∧ t = s.tick

/-- The interference in a handler. -/
def tickRely : Rely State where
  inv s := s.met = true → Inv s
  rel := Ticks
  refl _ := .refl
  trans := .trans

theorem Ticks.met (h : Ticks s t) (ht : t.met = true) : s.met = true := by
  induction h with
  | refl => exact ht
  | tail _ hstep ih =>
    obtain ⟨-, rfl⟩ := hstep
    exact ih (tick_met ht).1

/-- What a tick keeps under its conditions. -/
theorem Ticks.keep {P : State → Prop} (h : Ticks s t) (ht : t.met = true)
    (hP : ∀ u, Inv u → u.Condition → P u → P u.tick) (hs : P s) : P t := by
  induction h with
  | refl => exact hs
  | tail _ hstep ih =>
    obtain ⟨hinv, rfl⟩ := hstep
    obtain ⟨hmet, hcond⟩ := tick_met ht
    exact hP _ (hinv hmet) hcond (ih hmet)

theorem tickRely_clocked : Conditional State.met tickRely Inv :=
  ⟨fun _ => Iff.rfl, Ticks.met⟩

theorem tickRely_tick (h : tickRely.inv s) :
    tickRely.inv s.tick ∧ tickRely.rel s s.tick := by
  refine ⟨fun hmet => ?_, .single ⟨h, rfl⟩⟩
  obtain ⟨hs, hcond⟩ := tick_met hmet
  exact (h hs).tick hcond

end Ticks

section Overflow

/-- What the overflow handler leaves alone, and the registers. -/
def State.status (s : State) :
    ((Option Nat × (Nat → Timer) × List RtimerClock × List CallbackRun) × RtimerClock × Bool) ×
      RtimerClock × Nat × Nat × Nat × Bool × Option Nat × Bool :=
  (s.frame, s.registers)

theorem State.frame_of_status (h : t.status = s.status) : t.frame = s.frame :=
  congrArg (fun f => f.1) h

theorem State.registers_of_status (h : t.status = s.status) : t.registers = s.registers :=
  congrArg (fun f => f.2) h

/-- A status that ticks keep, also while the overflow is handled. -/
structure Kept (P : State → Prop) : Prop where
  congr : ∀ {s t : State}, t.status = s.status → P s → P t
  tick : ∀ {s : State}, s.Condition → s.overflow = true ∨ s.handling = true → P s → P s.tick
  due : ∀ {s : State}, P s → s.cpcs = true → s.nextRtimerTime.toNat ≤ s.now

/-- In the overflow handler, which was entered in the state `s`. -/
structure Handles (P : State → Prop) (s t : State) : Prop where
  frame : t.frame = s.frame
  later : s.now ≤ t.now
  quiet : t.programming = true → t.cpcs = s.cpcs
  handling : t.handling = true
  overflow : t.overflow = false
  status : P t

/-- What the overflow handler leaves behind. -/
structure Handled (P : State → Prop) (s t : State) : Prop where
  frame : t.frame = s.frame
  later : s.now ≤ t.now
  quiet : t.programming = true → t.cpcs = s.cpcs
  handling : t.handling = false
  status : (P t ∧ (t.nextRtimerTime.toNat ≤ t.now ∨ t.Ahead)) ∨
    (s.now < s.nextRtimerTime.toNat ∧ (t.Running ∨ t.Struck))

variable {P : State → Prop}

theorem Handles.tick (hP : Kept P) (h : Handles P s t) (hcond : t.Condition) :
    Handles P s t.tick := by
  constructor
  case frame => exact h.frame
  case later => exact Nat.le_succ_of_le h.later
  case quiet =>
    intro hprog
    rw [tick_cpcs (hcond.strikes (.inl hprog))]
    exact h.quiet hprog
  case handling => exact h.handling
  case overflow =>
    have hturn := hcond.overflow (.inr h.handling)
    show (t.overflow || decide ((t.now + 1) % 2 ^ 32 = 0)) = false
    rw [h.overflow, decide_eq_false hturn, Bool.false_or]
  case status => exact hP.tick hcond (.inr h.handling) h.status

theorem Handles.congr (hP : Kept P) (h : Handles P s t) (hstatus : u.status = t.status)
    (hhand : u.handling = t.handling) (hover : u.overflow = t.overflow) : Handles P s u := by
  have hframe := State.frame_of_status hstatus
  have hprog := State.programming_of_frame hframe
  have hregisters := State.registers_of_status hstatus
  simp only [State.registers, Prod.mk.injEq] at hregisters
  obtain ⟨-, hnow, -, -, -, -, hcpcs⟩ := hregisters
  constructor
  case frame => exact hframe.trans h.frame
  case later => exact hnow ▸ h.later
  case quiet => exact fun hp => hcpcs.trans (h.quiet (hprog ▸ hp))
  case handling => exact hhand.trans h.handling
  case overflow => exact hover.trans h.overflow
  case status => exact hP.congr hstatus h.status

/-- An action that changes neither the timer nor the time. -/
def Passes (f : State → State) : Prop :=
  ∀ s, ((f s).met = true → s.met = true) ∧ (f s).frame = s.frame ∧ (f s).now = s.now

theorem passes_tc0Handler : Acts Passes tc0Handler := by
  have hpass : ∀ {f : State → State}, (∀ s, (f s).met = s.met ∧ (f s).frame = s.frame ∧
      (f s).now = s.now) → Passes f := fun h s => ⟨fun hf => (h s).1 ▸ hf, (h s).2⟩
  have hread : Passes id := hpass fun _ => ⟨rfl, rfl, rfl⟩
  have hfull : Passes (State.note State.NotFull) := fun _ => ⟨fun h => (note_met h).1, rfl, rfl⟩
  unfold tc0Handler
  refine .bind (.modify (hpass fun _ => ⟨rfl, rfl, rfl⟩)) fun _ => .bind (.read hread) fun _ => ?_
  refine .bind (.atomically hfull) fun _ => .bind (.read hread) fun _ => ?_
  dsimp only
  split
  · refine .bind (.modify (hpass fun _ => ⟨rfl, rfl, rfl⟩)) fun _ => ?_
    refine .bind (.modify (hpass fun _ => ⟨rfl, rfl, rfl⟩)) fun _ => ?_
    refine .bind (.modify (hpass fun _ => ⟨rfl, rfl, rfl⟩)) fun _ => ?_
    exact .modify (hpass fun _ => ⟨rfl, rfl, rfl⟩)
  · exact .modify (hpass fun _ => ⟨rfl, rfl, rfl⟩)

theorem acts_tc0Handler : Acts KeepsMet tc0Handler :=
  passes_tc0Handler.mono fun _ hf s => (hf s).1

theorem waitless_tc0Handler : tc0Handler.Waitless := by
  intro _ _ _ _
  dsimp only [id_eq, Prog.bind]
  split
  · exact fun _ _ _ _ => trivial
  · exact fun _ => trivial

theorem Inv.countOverflow (h : Inv s) (hover : s.overflow = true) : Inv (countOverflow s) := by
  have hclock := h.clock
  have hline := h.line
  rw [hover, Bool.toNat_true] at hclock
  constructor
  case clock =>
    show (s.timeMsb + 1).toNat + 0 = s.now / 2 ^ 32
    rw [BitVec.toNat_add, Nat.add_zero, ← hclock]
    exact Nat.mod_eq_of_lt (by change s.timeMsb.toNat + 1 < 2 ^ 64; omega)
  case line => exact hline
  case order => exact h.order
  case made => exact h.made
  case runs => exact h.runs
  case settled => exact fun _ hhand => absurd hhand (by simp [Rtimer.countOverflow])

/-- An action that changes only the registers of the auxiliary counter and the ghost fields keeps
the invariant while the timer is being changed. -/
theorem Inv.congr (h : Inv s) (hclock : (t.timeMsb, t.overflow, t.now) =
      (s.timeMsb, s.overflow, s.now)) (hmade : (t.requests, t.runs) = (s.requests, s.runs))
    (hsettled : t.programming = false → t.handling = false → t.Settled) : Inv t := by
  simp only [Prod.mk.injEq] at hclock hmade
  obtain ⟨hmsb, hover, hnow⟩ := hclock
  obtain ⟨hrequests, hruns⟩ := hmade
  constructor
  case clock => rw [hmsb, hover, hnow, h.clock]
  case line => exact hnow ▸ h.line
  case order => rw [hruns, h.order]
  case made => rw [hruns, hrequests]; exact h.made
  case runs => rw [hruns, hrequests]; exact h.runs
  case settled => exact hsettled

/-- The overflow handler reads the exact time. -/
theorem toNat_clock_handling (h : Inv s) (hover : s.overflow = false) :
    (clock s.timeMsb s.tcReadTc).toNat = s.now := by
  have hclock := h.clock
  have hline := h.line
  rw [hover, Bool.toNat_false, Nat.add_zero] at hclock
  rw [toNat_clock (by omega), hclock, toNat_tcReadTc]
  omega

/-- The auxiliary counter is being started by the overflow handler. -/
structure Arms (P : State → Prop) (s t : State) : Prop where
  frame : t.frame = s.frame
  later : s.now ≤ t.now
  quiet : t.programming = true → t.cpcs = s.cpcs
  handling : t.handling = true
  busy : t.busy = true
  valid : t.RcValid
  due : t.cpcs = true → t.nextRtimerTime.toNat ≤ t.now

theorem Arms.tick (h : Arms P s t) (hcond : t.Condition) : Arms P s t.tick := by
  have hstrikes := hcond.strikes (.inr h.busy)
  constructor
  case frame => exact h.frame
  case later => exact Nat.le_succ_of_le h.later
  case quiet => rw [tick_cpcs hstrikes]; exact h.quiet
  case handling => exact h.handling
  case busy => exact h.busy
  case valid => exact h.valid.tick
  case due =>
    rw [tick_cpcs hstrikes]
    exact fun hcpcs => Nat.le_succ_of_le (h.due hcpcs)

theorem Inv.congr_handling (h : Inv s) (hclock : (t.timeMsb, t.overflow, t.now) =
      (s.timeMsb, s.overflow, s.now)) (hmade : (t.requests, t.runs) = (s.requests, s.runs))
    (hhand : t.handling = true) : Inv t :=
  h.congr hclock hmade fun _ hfalse => absurd hfalse (by rw [hhand]; nofun)

variable {Q : State → Prop}

/-- The end of the overflow handler, when it starts the auxiliary counter. -/
theorem sat_arm (hs : Arms P s t) (hdue : s.now < s.nextRtimerTime.toNat)
    (hset : ∀ u, Handled P s u → u.programming = false → u.Settled)
    (hend : ∀ u, Handled P s u → Q u) (htick : ∀ u, u.Condition → Q u → Q u.tick) :
    Sat tickRely
      (.act tcEnableInterrupt fun _ => .act tcStart fun _ => .act endHandling fun _ => .ret ())
      (fun _ u => u.met = true → Q u) t := by
  have hr := tickRely_clocked
  have hacts : Acts KeepsMet
      (.act tcEnableInterrupt fun _ => .act tcStart fun _ => .act endHandling fun _ => .ret ()) :=
    ⟨.of_eq fun _ => rfl, fun _ => ⟨.of_eq fun _ => rfl, fun _ => ⟨.of_eq fun _ => rfl,
      fun _ => trivial⟩⟩⟩
  refine hr.sat_act hacts fun x htx hmx _ hIx _ => ?_
  have hx : Arms P s x := Ticks.keep htx hmx (fun _ _ hcond hu => hu.tick hcond) hs
  refine ⟨hIx.congr_handling rfl rfl hx.handling, ?_⟩
  refine hr.sat_act (hacts.2 x) fun y hxy hmy _ hIy _ => ?_
  obtain ⟨hy, henabled⟩ : Arms P s y ∧ y.cpcsEnabled = true := by
    refine Ticks.keep hxy hmy (P := fun u => Arms P s u ∧ u.cpcsEnabled = true)
      (fun _ _ hcond hu => ⟨hu.1.tick hcond, hu.2⟩) ⟨?_, rfl⟩
    exact ⟨hx.frame, hx.later, hx.quiet, hx.handling, hx.busy, hx.valid.congr rfl, hx.due⟩
  have hstart : (tcStart y).cpcs = y.cpcs := by
    have hpos := Nat.pos_iff_ne_zero.1 hy.valid.pos
    simp [tcStart, hpos]
  have hstarted : (tcStart y).Running ∨ (tcStart y).Struck := by
    cases hcpcs : y.cpcs with
    | false =>
      exact .inl ⟨henabled, hstart.trans hcpcs, hy.valid.congr rfl, 0, rfl, hy.valid.pos,
        hy.valid.read⟩
    | true => exact .inr ⟨henabled, hstart.trans hcpcs, hy.due hcpcs⟩
  refine ⟨hIy.congr_handling rfl rfl hy.handling, ?_⟩
  refine hr.sat_act ((hacts.2 x).2 y) fun z hyz hmz _ hIz _ => ?_
  have hz : (z.frame = s.frame ∧ s.now ≤ z.now ∧ (z.programming = true → z.cpcs = s.cpcs)) ∧
      (z.Running ∨ z.Struck) := by
    refine Ticks.keep hyz hmz (P := fun u => (u.frame = s.frame ∧ s.now ≤ u.now ∧
        (u.programming = true → u.cpcs = s.cpcs)) ∧ (u.Running ∨ u.Struck))
      (fun u _ hcond hu => ⟨⟨hu.1.1, Nat.le_succ_of_le hu.1.2.1, fun hprog => ?_⟩, ?_⟩)
      ⟨⟨hy.frame, hy.later, fun hprog => hstart.trans (hy.quiet hprog)⟩, hstarted⟩
    · rw [tick_cpcs (hcond.strikes (.inl hprog))]
      exact hu.1.2.2 hprog
    · exact hu.2.elim State.Running.tick fun h => .inr h.tick
  obtain ⟨⟨hframe, hlater, hquiet⟩, hstatus⟩ := hz
  have hhandled : Handled P s (endHandling z) :=
    ⟨hframe, hlater, hquiet, rfl,
      .inr ⟨hdue, hstatus.imp (fun h => h.congr rfl) fun h => h.congr rfl⟩⟩
  refine ⟨hIz.congr rfl rfl fun hprog _ => hset _ hhandled hprog, ?_⟩
  exact hr.sat_ret fun u hzu hmu _ =>
    Ticks.keep hzu hmu (fun v _ hcond hv => htick v hcond hv) (hend _ hhandled)

/-- The overflow handler starts the auxiliary counter for a time that is less than `2 ^ 32` ticks
ahead. -/
theorem wait_of_arms {time now : RtimerClock} {tick : Nat} (hclock : now.toNat = tick)
    (hline : tick < 2 ^ 64 - 2 ^ 32) (hfull : tick + 2 ^ 32 ≠ time.toNat)
    (h : (fits (time - now) && decide (0 < time - now)) = true) :
    tick < time.toNat ∧ ((time - now).setWidth 32).toNat = time.toNat - tick ∧
      time.toNat - tick < 2 ^ 32 := by
  rw [Bool.and_eq_true, decide_eq_true_eq] at h
  obtain ⟨hfits, hpos⟩ := h
  have hle : tick ≤ time.toNat := by
    by_contra hlt
    rw [fits_eq_false_of_lt (by omega) (by omega)] at hfits
    exact Bool.false_ne_true hfits
  have hwait := toNat_wait (show now.toNat ≤ time.toNat by omega)
  rw [fits_iff, hwait] at hfits
  rw [BitVec.lt_def, hwait] at hpos
  have hpos' : 0 < time.toNat - now.toNat := hpos
  refine ⟨by omega, ?_, by omega⟩
  rw [BitVec.toNat_setWidth, hwait, hclock]
  exact Nat.mod_eq_of_lt (by omega)

/-- It leaves a time that has passed, and one that is further ahead. -/
theorem time_of_skips {time now : RtimerClock} {tick : Nat} (hclock : now.toNat = tick)
    (h : ¬ (fits (time - now) && decide (0 < time - now)) = true) :
    time.toNat ≤ tick ∨ tick + 2 ^ 32 < time.toNat := by
  by_contra hnot
  rw [not_or, not_le, not_lt] at hnot
  have hwait := toNat_wait (show now.toNat ≤ time.toNat by omega)
  apply h
  rw [Bool.and_eq_true, decide_eq_true_eq, fits_iff, BitVec.lt_def, hwait]
  refine ⟨by omega, ?_⟩
  show 0 < time.toNat - now.toNat
  omega

/-- The overflow handler leaves the registers alone, or starts the auxiliary counter. -/
theorem sat_tc0Handler (hP : Kept P) (hs : P s) (hover : s.overflow = true)
    (hset : ∀ u, Handled P s u → u.programming = false → u.Settled)
    (hend : ∀ u, Handled P s u → Q u) (htick : ∀ u, u.Condition → Q u → Q u.tick) :
    Sat tickRely tc0Handler (fun _ u => u.met = true → Q u) s := by
  have hr := tickRely_clocked
  have hacts := acts_tc0Handler
  refine hr.sat_act hacts fun t hst hmt _ hIt _ => ?_
  have ht : Handles P s (countOverflow t) := by
    obtain ⟨hframe, hlater, hquiet, hstatus, hpending⟩ := Ticks.keep hst hmt
      (P := fun u => u.frame = s.frame ∧ s.now ≤ u.now ∧
        (u.programming = true → u.cpcs = s.cpcs) ∧ P u ∧ u.overflow = true)
      (fun u _ hcond hu => ⟨hu.1, Nat.le_succ_of_le hu.2.1, fun hprog => by
          rw [tick_cpcs (hcond.strikes (.inl hprog))]
          exact hu.2.2.1 hprog,
        hP.tick hcond (.inl hu.2.2.2.2) hu.2.2.2.1, by simp [State.tick, hu.2.2.2.2]⟩)
      ⟨rfl, Nat.le_refl _, fun _ => rfl, hs, hover⟩
    exact ⟨hframe, hlater, hquiet, rfl, rfl, hP.congr (s := t) rfl hstatus⟩
  have hover_t : t.overflow = true := Ticks.keep hst hmt (P := fun u => u.overflow = true)
    (fun u _ _ hu => by simp [State.tick, hu]) hover
  refine ⟨hIt.countOverflow hover_t, ?_⟩
  refine hr.sat_act (hacts.2 t) fun u htu hmu _ hIu _ => ⟨hIu, ?_⟩
  have hu : Handles P s u := Ticks.keep htu hmu (fun _ _ hcond hv => hv.tick hP hcond) ht
  -- The upper half that was read stays the current one while the overflow is handled.
  have hkeep : ∀ v w, Ticks v w → w.met = true → Handles P s v ∧ v.timeMsb = u.timeMsb →
      Handles P s w ∧ w.timeMsb = u.timeMsb := fun v w hvw hmw hv =>
    Ticks.keep hvw hmw (P := fun x => Handles P s x ∧ x.timeMsb = u.timeMsb)
      (fun _ _ hcond hx => ⟨hx.1.tick hP hcond, hx.2⟩) hv
  refine hr.sat_act ((hacts.2 t).2 u) fun v huv hmv _ hIv hfull => ?_
  have hv := hkeep u v huv hmv ⟨hu, rfl⟩
  have hclock : (clock u.timeMsb v.tcReadTc).toNat = v.now := by
    rw [← hv.2]
    exact toNat_clock_handling hIv hv.1.overflow
  have hv' : Handles P s (v.note State.NotFull) ∧ (v.note State.NotFull).timeMsb = u.timeMsb :=
    ⟨hv.1.congr hP rfl rfl rfl, hv.2⟩
  refine ⟨hIv.congr_handling rfl rfl hv.1.handling, ?_⟩
  refine hr.sat_act (((hacts.2 t).2 u).2 v) fun w hvw hmw _ hIw _ => ⟨hIw, ?_⟩
  have hw := hkeep _ w hvw hmw hv'
  have hlater : v.now ≤ w.now := Ticks.keep hvw hmw (P := fun x => v.now ≤ x.now)
    (fun _ _ _ hx => Nat.le_succ_of_le hx) (Nat.le_refl _)
  have hfull' : v.now + 2 ^ 32 ≠ w.nextRtimerTime.toNat := by
    rw [State.time_of_frame hw.1.frame, ← State.time_of_frame hv.1.frame]
    exact (note_met hfull).2
  have hline := hIv.line
  have hacts' := (((hacts.2 t).2 u).2 v).2 w
  dsimp only [id_eq, Prog.bind] at hacts' ⊢
  split
  next harm =>
    rw [if_pos harm] at hacts'
    obtain ⟨hdue, hwait, hlt⟩ := wait_of_arms hclock hline hfull' harm
    refine hr.sat_act hacts' fun x hwx hmx _ hIx _ => ?_
    have hx := hkeep w x hwx hmx hw
    have hxtime : x.nextRtimerTime = w.nextRtimerTime :=
      (State.time_of_frame hx.1.frame).trans (State.time_of_frame hw.1.frame).symm
    have hxlater : v.now ≤ x.now := Ticks.keep hwx hmx (P := fun y => v.now ≤ y.now)
      (fun _ _ _ hy => Nat.le_succ_of_le hy) hlater
    refine ⟨hIx.congr_handling rfl rfl hx.1.handling, ?_⟩
    refine sat_arm (P := P) ⟨hx.1.frame, hx.1.later, hx.1.quiet, hx.1.handling, rfl, ?_, ?_⟩ ?_
      hset hend htick
    · have hrc : (tcWriteRc (w.nextRtimerTime - clock u.timeMsb v.tcReadTc) v.now x).rc =
          x.nextRtimerTime.toNat - v.now := by
        rw [hxtime]
        exact hwait
      rw [← hxtime] at hdue hlt
      refine ⟨?_, by rw [hrc]; omega, by rw [hrc]; exact hlt, hxlater⟩
      rw [hrc]
      exact Nat.add_sub_cancel' hdue.le
    · exact hP.due (s := x) hx.1.status
    · have := hv.1.later
      rw [← State.time_of_frame hw.1.frame]
      omega
  next hskip =>
    rw [if_neg hskip] at hacts'
    refine hr.sat_act hacts' fun x hwx hmx _ hIx _ => ?_
    have hx := hkeep w x hwx hmx hw
    have hxtime : x.nextRtimerTime = w.nextRtimerTime :=
      (State.time_of_frame hx.1.frame).trans (State.time_of_frame hw.1.frame).symm
    have hxlater : v.now ≤ x.now := Ticks.keep hwx hmx (P := fun y => v.now ≤ y.now)
      (fun _ _ _ hy => Nat.le_succ_of_le hy) hlater
    have hhandled : Handled P s (endHandling x) := by
      refine ⟨hx.1.frame, hx.1.later, hx.1.quiet, rfl,
        .inl ⟨hP.congr (s := x) rfl hx.1.status, ?_⟩⟩
      rcases time_of_skips hclock hskip with hpast | hfar
      · left
        show x.nextRtimerTime.toNat ≤ x.now
        rw [hxtime]
        omega
      · right
        have hlap : x.now / 2 ^ 32 = v.now / 2 ^ 32 := by
          have hx' := hIx.clock
          have hv' := hIv.clock
          rw [hx.1.overflow, hx.2] at hx'
          rw [hv.1.overflow, hv.2] at hv'
          exact hx'.symm.trans hv'
        refine ⟨?_, .inr ?_⟩
        · show x.now < x.nextRtimerTime.toNat
          rw [hxtime]
          omega
        · show (x.now / 2 ^ 32 + 1) * 2 ^ 32 < x.nextRtimerTime.toNat
          rw [hxtime]
          omega
    refine ⟨hIx.congr rfl rfl fun hprog _ => hset _ hhandled hprog, ?_⟩
    exact hr.sat_ret fun u hzu hmu _ =>
      Ticks.keep hzu hmu (fun v _ hcond hv => htick v hcond hv) (hend _ hhandled)

end Overflow

end Calipso.Rtimer
