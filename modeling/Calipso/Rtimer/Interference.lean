import Calipso.Rtimer.Handlers

/-!
# The interference with `rtimer_set`

While `rtimer_set` runs, the clock ticks and the overflow handler may run. `Env` is what they do
together; each status that `rtimer_arch_schedule` goes through is kept by it.
-/

namespace Calipso.Rtimer

open Interrupt

variable {s t u : State} {P Q : State → Prop}

section Env

/-- A tick, or the overflow handler. -/
def EnvStep (s t : State) : Prop :=
  (s.met = true → Inv s) ∧
    (t = s.tick ∨ s.overflow = true ∧ ∃ lags, t = tc0Handler.elapse State.tick lags s)

def Env : State → State → Prop :=
  Relation.ReflTransGen EnvStep

theorem elapse_passes (lags : List Nat) (s : State) :
    let t := tc0Handler.elapse State.tick lags s
    (t.met = true → s.met = true) ∧ t.frame = s.frame ∧ s.now ≤ t.now := by
  refine Prog.elapse_rel (R := fun s t => (t.met = true → s.met = true) ∧ t.frame = s.frame ∧
    s.now ≤ t.now) (fun _ => ⟨id, rfl, Nat.le_refl _⟩) (fun h h' => ?_)
    (fun s => ⟨fun h => (tick_met h).1, rfl, Nat.le_succ _⟩)
    (passes_tc0Handler.mono fun _ hf s => ⟨(hf s).1, (hf s).2.1, (hf s).2.2.ge⟩) lags s
  exact ⟨fun hu => h.1 (h'.1 hu), h'.2.1.trans h.2.1, h.2.2.trans h'.2.2⟩

theorem EnvStep.passes (h : EnvStep s t) :
    (t.met = true → s.met = true) ∧ t.frame = s.frame ∧ s.now ≤ t.now := by
  obtain ⟨-, rfl | ⟨-, lags, rfl⟩⟩ := h
  · exact ⟨fun h => (tick_met h).1, rfl, Nat.le_succ _⟩
  · exact elapse_passes lags s

theorem Env.passes (h : Env s t) :
    (t.met = true → s.met = true) ∧ t.frame = s.frame ∧ s.now ≤ t.now := by
  induction h with
  | refl => exact ⟨id, rfl, Nat.le_refl _⟩
  | tail _ hstep ih =>
    have hpasses := hstep.passes
    exact ⟨fun hu => ih.1 (hpasses.1 hu), hpasses.2.1.trans ih.2.1, ih.2.2.trans hpasses.2.2⟩

theorem Ticks.env (h : Ticks s t) : Env s t :=
  Relation.ReflTransGen.mono (fun _ _ hstep => ⟨hstep.1, .inl hstep.2⟩) _ _ h

/-- What the overflow handler leaves behind, and the invariant. -/
theorem inv_elapse_tc0Handler (hP : Kept P) (hs : P s) (hinv : s.met = true → Inv s)
    (hover : s.overflow = true)
    (hset : ∀ u, Handled P s u → u.programming = false → u.Settled)
    (hend : ∀ u, Handled P s u → Q u) (htick : ∀ u, u.Condition → Q u → Q u.tick)
    (lags : List Nat) (hmet : (tc0Handler.elapse State.tick lags s).met = true) :
    Inv (tc0Handler.elapse State.tick lags s) ∧ Q (tc0Handler.elapse State.tick lags s) := by
  obtain ⟨hI, -, hQ⟩ := (sat_tc0Handler hP hs hover hset hend htick).elapse
    (fun _ => tickRely_tick) waitless_tc0Handler hinv lags
  exact ⟨hI hmet, hQ hmet⟩

/-- What both kinds of steps keep, while `rtimer_set` is running. -/
theorem Env.keep (h : Env s t) (ht : t.met = true) (hprog : s.programming = true)
    (htick : ∀ u, Inv u → u.Condition → ¬ u.Strikes → P u → P u.tick)
    (hover : ∀ u lags, Inv u → u.programming = true → u.overflow = true → P u →
      (tc0Handler.elapse State.tick lags u).met = true →
      P (tc0Handler.elapse State.tick lags u)) (hs : P s) : P t := by
  induction h with
  | refl => exact hs
  | tail hrest hstep ih =>
    have hmet := hstep.passes.1 ht
    have hprog' := (State.programming_of_frame (Env.passes hrest).2.1).trans hprog
    obtain ⟨hinv, rfl | ⟨ho, lags, rfl⟩⟩ := hstep
    · have hcond := (tick_met ht).2
      exact htick _ (hinv hmet) hcond (hcond.strikes (.inl hprog')) (ih hmet)
    · exact hover _ lags (hinv hmet) hprog' ho (ih hmet) ht

/-- A status that the overflow handler leaves as it is, or replaces by the counter that it
starts. -/
theorem Env.keep_status (h : Env s t) (ht : t.met = true) (hprog : s.programming = true)
    (hP : Kept P) (htick : ∀ u, u.Condition → ¬ u.Strikes → P u → P u.tick)
    (hend : ∀ u v, P u → Handled P u v → P v) (hs : P s) : P t := by
  refine h.keep ht hprog (fun u _ hcond hstrikes hu => htick u hcond hstrikes hu)
    (fun u lags hinv hpu ho hu hmet => ?_) hs
  refine (inv_elapse_tc0Handler (Q := fun v => v.programming = true ∧ P v) hP hu (fun _ => hinv)
    ho (fun v hv hpv => ?_) (fun v hv => ⟨?_, hend u v hu hv⟩) (fun v hcond hv => ?_) lags
    hmet).2.2
  · rw [State.programming_of_frame hv.frame, hpu] at hpv
    exact Bool.noConfusion hpv
  · exact (State.programming_of_frame hv.frame).trans hpu
  · exact ⟨hv.1, htick v hcond (hcond.strikes (.inl hv.1)) hv.2⟩

end Env

section Statuses

theorem kept_shape : Kept State.Shape where
  congr hstatus h := h.congr (State.registers_of_status hstatus)
  tick _ _ h := h.tick
  due h hcpcs := by
    rcases h with h | h | h
    · exact absurd hcpcs (by rw [h.cpcs]; nofun)
    · exact absurd hcpcs (by rw [h.cpcs]; nofun)
    · exact h.due

theorem Env.shape (h : Env s t) (ht : t.met = true) (hprog : s.programming = true)
    (hs : s.Shape) : t.Shape :=
  h.keep_status ht hprog kept_shape (fun _ _ _ hu => hu.tick)
    (fun _ _ _ hv => hv.status.elim And.left fun h => .inr h.2) hs

theorem kept_struck : Kept State.Struck where
  congr hstatus h := h.congr (State.registers_of_status hstatus)
  tick _ _ h := h.tick
  due h _ := h.due

theorem Env.struck (h : Env s t) (ht : t.met = true) (hprog : s.programming = true)
    (hs : s.Struck) : t.Struck := by
  refine h.keep_status ht hprog kept_struck (fun _ _ _ hu => hu.tick) (fun u v hu hv => ?_) hs
  rcases hv.status with hkept | ⟨hdue, -⟩
  · exact hkept.1
  · exact absurd hu.due (Nat.not_le.2 hdue)

/-- No timer is armed, and the last time has passed. -/
def State.Stale (s : State) : Prop :=
  s.Off ∧ s.nextRtimerTime.toNat ≤ s.now

theorem State.Stale.congr (h : s.Stale) (hregisters : t.registers = s.registers) : t.Stale := by
  refine ⟨h.1.congr hregisters, ?_⟩
  simp only [State.registers, Prod.mk.injEq] at hregisters
  rw [hregisters.1, hregisters.2.1]
  exact h.2

theorem kept_stale : Kept State.Stale where
  congr hstatus h := h.congr (State.registers_of_status hstatus)
  tick _ _ h := ⟨h.1.tick, Nat.le_succ_of_le h.2⟩
  due h _ := h.2

theorem Env.stale (h : Env s t) (ht : t.met = true) (hprog : s.programming = true)
    (hs : s.Stale) : t.Stale := by
  refine h.keep_status ht hprog kept_stale (fun _ _ _ hu => ⟨hu.1.tick, Nat.le_succ_of_le hu.2⟩)
    (fun u v hu hv => ?_) hs
  rcases hv.status with hkept | ⟨hdue, -⟩
  · exact hkept.1
  · exact absurd hu.2 (Nat.not_le.2 hdue)

/-- The time is less than `2 ^ 32` ticks ahead. -/
def State.Near (s : State) : Prop :=
  s.Shape ∧ (s.Struck ∨ s.nextRtimerTime.toNat < s.now + 2 ^ 32)

theorem State.Near.tick (h : s.Near) : s.tick.Near := by
  refine ⟨h.1.tick, h.2.imp State.Struck.tick fun hlt => ?_⟩
  show s.nextRtimerTime.toNat < s.now + 1 + 2 ^ 32
  omega

theorem State.Near.congr (h : s.Near) (hregisters : t.registers = s.registers) : t.Near := by
  refine ⟨h.1.congr hregisters, h.2.imp (fun h => h.congr hregisters) fun hlt => ?_⟩
  simp only [State.registers, Prod.mk.injEq] at hregisters
  rw [hregisters.1, hregisters.2.1]
  exact hlt

theorem kept_near : Kept State.Near where
  congr hstatus h := h.congr (State.registers_of_status hstatus)
  tick _ _ h := h.tick
  due h := kept_shape.due h.1

theorem Env.near (h : Env s t) (ht : t.met = true) (hprog : s.programming = true)
    (hs : s.Near) : t.Near := by
  refine h.keep_status ht hprog kept_near (fun _ _ _ hu => hu.tick) (fun u v _ hv => ?_) hs
  rcases hv.status with hkept | ⟨-, hrunning | hstruck⟩
  · exact hkept.1
  · refine ⟨.inr (.inl hrunning), .inr ?_⟩
    have hwait := hrunning.valid.wait
    have hlt := hrunning.valid.lt
    have hread := hrunning.valid.read
    omega
  · exact ⟨.inr (.inr hstruck), .inl hstruck⟩

theorem State.Loaded.congr (h : s.Loaded) (hregisters : t.registers = s.registers) :
    t.Loaded := by
  refine h.imp (fun h => h.congr hregisters) fun h => ?_
  simp only [State.registers, Prod.mk.injEq] at hregisters
  obtain ⟨htime, hnow, hasOf, hrc, -, -, hcpcs⟩ := hregisters
  exact ⟨hcpcs.trans h.1, h.2.congr (by rw [htime, hnow, hasOf, hrc])⟩

theorem State.Ready.congr (h : s.Ready) (hregisters : t.registers = s.registers) : t.Ready := by
  refine h.imp (fun h => h.congr hregisters) fun h => ?_
  simp only [State.registers, Prod.mk.injEq] at hregisters
  obtain ⟨htime, hnow, hasOf, hrc, henabled, -, hcpcs⟩ := hregisters
  exact ⟨henabled.trans h.1, hcpcs.trans h.2.1, h.2.2.congr (by rw [htime, hnow, hasOf, hrc])⟩

theorem kept_loaded : Kept fun u => u.programming = true ∧ u.Loaded where
  congr hstatus h :=
    ⟨(State.programming_of_frame (State.frame_of_status hstatus)).trans h.1,
      h.2.congr (State.registers_of_status hstatus)⟩
  tick hcond _ h := ⟨h.1, h.2.tick (hcond.strikes (.inl h.1))⟩
  due h hcpcs := by
    rcases h.2 with h | h
    · exact h.due
    · exact absurd hcpcs (by rw [h.1]; nofun)

theorem kept_ready : Kept fun u => u.programming = true ∧ u.Ready where
  congr hstatus h :=
    ⟨(State.programming_of_frame (State.frame_of_status hstatus)).trans h.1,
      h.2.congr (State.registers_of_status hstatus)⟩
  tick hcond _ h := ⟨h.1, h.2.tick (hcond.strikes (.inl h.1))⟩
  due h hcpcs := by
    rcases h.2 with h | h
    · exact h.due
    · exact absurd hcpcs (by rw [h.2.1]; nofun)

theorem State.ready_of_started (h : s.Running ∨ s.Struck) : s.Ready :=
  h.elim State.Running.ready .inl

theorem Env.loaded (h : Env s t) (ht : t.met = true) (hprog : s.programming = true)
    (hs : s.Loaded) : t.Loaded := by
  refine (h.keep_status ht hprog kept_loaded (fun u _ hstrikes hu => ⟨hu.1, hu.2.tick hstrikes⟩)
    (fun u v hu hv => ?_) ⟨hprog, hs⟩).2
  rcases hv.status with hkept | ⟨-, hstarted⟩
  · exact hkept.1
  · exact ⟨(State.programming_of_frame hv.frame).trans hu.1,
      (State.ready_of_started hstarted).loaded⟩

theorem Env.ready (h : Env s t) (ht : t.met = true) (hprog : s.programming = true)
    (hs : s.Ready) : t.Ready := by
  refine (h.keep_status ht hprog kept_ready (fun u _ hstrikes hu => ⟨hu.1, hu.2.tick hstrikes⟩)
    (fun u v hu hv => ?_) ⟨hprog, hs⟩).2
  rcases hv.status with hkept | ⟨-, hstarted⟩
  · exact hkept.1
  · exact ⟨(State.programming_of_frame hv.frame).trans hu.1, State.ready_of_started hstarted⟩

/-- The overflow handler takes care of the time, or the time has passed. -/
def State.Covered (s : State) : Prop :=
  s.Running ∨ s.Struck ∨ s.nextRtimerTime.toNat ≤ s.now ∨ s.Ahead

theorem State.Covered.tick (h : s.Covered) : s.tick.Covered := by
  rcases h with h | h | h | h
  · exact h.tick.imp_right .inl
  · exact .inr (.inl h.tick)
  · exact .inr (.inr (.inl (Nat.le_succ_of_le h)))
  · by_cases hdue : s.now + 1 < s.nextRtimerTime.toNat
    · exact .inr (.inr (.inr (h.tick fun _ => hdue)))
    · exact .inr (.inr (.inl (Nat.le_of_not_lt hdue)))

/-- Unless the overflow handler ran, the upper half of the time is still the same. -/
theorem Env.covered {timeMsb : BitVec 64} (h : Env s t) (ht : t.met = true)
    (hprog : s.programming = true) (hshape : s.Shape)
    (hs : s.timeMsb = timeMsb ∨ s.Covered) : t.timeMsb = timeMsb ∨ t.Covered := by
  refine (h.keep (P := fun u => u.Shape ∧ (u.timeMsb = timeMsb ∨ u.Covered)) ht hprog
    (fun u _ _ _ hu => ⟨hu.1.tick, hu.2.imp_right State.Covered.tick⟩)
    (fun u lags hinv hpu ho hu hmet => ?_) ⟨hshape, hs⟩).2
  have hset : ∀ v, Handled State.Shape u v → v.programming = false → v.Settled := by
    intro v hv hpv
    rw [State.programming_of_frame hv.frame, hpu] at hpv
    exact Bool.noConfusion hpv
  have hend : ∀ v, Handled State.Shape u v → v.Shape ∧ v.Covered := by
    intro v hv
    rcases hv.status with ⟨hshape, hpast | hahead⟩ | ⟨-, hrunning | hstruck⟩
    · exact ⟨hshape, .inr (.inr (.inl hpast))⟩
    · exact ⟨hshape, .inr (.inr (.inr hahead))⟩
    · exact ⟨.inr (.inl hrunning), .inl hrunning⟩
    · exact ⟨.inr (.inr hstruck), .inr (.inl hstruck)⟩
  have hQ := (inv_elapse_tc0Handler kept_shape hu.1 (fun _ => hinv) ho hset hend
    (fun v _ hv => ⟨hv.1.tick, hv.2.tick⟩) lags hmet).2
  exact ⟨hQ.1, .inr hQ.2⟩

end Statuses

end Calipso.Rtimer
