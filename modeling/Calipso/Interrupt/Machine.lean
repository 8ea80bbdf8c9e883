import Calipso.Interrupt.Prog

/-!
# A processor with one main loop and its interrupts

A `Machine` is given by what its interrupts do and by the calls the main loop
makes. Handlers are not nested, so a handler is one transition; a call runs its
`Prog` one action at a time and the next call starts when it has returned.

A `Guard` says which interrupts and which calls are admitted in a state, and
`Run` is a finite run all of whose steps are admitted. `Guard.any` admits
everything, so `Run M Guard.any` is the set of all runs.
-/

namespace Calipso.Interrupt

universe u v w

/-- The interrupts `ι` and the calls of the main loop `κ` over the shared state
`σ`. An interrupt that cannot be raised in a state answers `none` there. -/
structure Machine (σ : Type u) (ι : Type v) (κ : Type w) where
  irq : ι → σ → Option σ
  body : κ → Prog σ Unit

/-- The shared state and what is left of the running call. -/
structure Config (σ : Type u) where
  state : σ
  rest : Prog σ Unit

/-- What happens next: an interrupt, one action of the running call, or the
start of a call. -/
inductive Label (ι : Type v) (κ : Type w)
  | irq (i : ι)
  | main
  | call (k : κ)

/-- A call and its first `n` actions. -/
def callFor (k : κ) (n : Nat) : List (Label ι κ) :=
  .call k :: List.replicate n .main

/-- The interrupts and the calls that are admitted in a state. -/
structure Guard (σ : Type u) (ι : Type v) (κ : Type w) where
  irq : ι → σ → Prop
  call : κ → σ → Prop

variable {σ : Type u} {ι : Type v} {κ : Type w}

/-- No call is running. -/
def Config.idle (s : σ) : Config σ := ⟨s, .ret ()⟩

/-- The running call has returned. -/
def Config.isIdle (c : Config σ) : Bool :=
  match c.rest with
  | .ret _ => true
  | .act _ _ => false
  | .wait _ _ => false

/-- The running call polls for a condition that does not hold. -/
def Config.isBlocked (c : Config σ) : Bool :=
  match c.rest with
  | .ret _ => false
  | .act _ _ => false
  | .wait cond _ => !cond c.state

/-- Every interrupt and every call is admitted. -/
def Guard.any : Guard σ ι κ := ⟨fun _ _ => True, fun _ _ => True⟩

/-- The guard's verdict on a step of the machine. -/
def Guard.admits (G : Guard σ ι κ) (s : σ) : Label ι κ → Prop
  | .irq i => G.irq i s
  | .main => True
  | .call k => G.call k s

instance (s : σ) (l : Label ι κ) : Decidable (Guard.any.admits s l) := by
  cases l <;> exact inferInstanceAs (Decidable True)

namespace Machine

variable (M : Machine σ ι κ)

/-- One step of the machine; `none` when the step is not possible. -/
def step : Config σ → Label ι κ → Option (Config σ)
  | ⟨s, p⟩, .irq i => (M.irq i s).map fun s' => ⟨s', p⟩
  | ⟨s, .act f k⟩, .main => some ⟨f s, k s⟩
  | ⟨s, .ret _⟩, .call c => some ⟨s, M.body c⟩
  | ⟨s, .wait c p⟩, .main => if c s then some ⟨s, p⟩ else none
  | ⟨_, .ret _⟩, .main => none
  | ⟨_, .act _ _⟩, .call _ => none
  | ⟨_, .wait _ _⟩, .call _ => none

/-- The configuration after a whole list of steps. -/
def exec (c : Config σ) (ls : List (Label ι κ)) : Option (Config σ) :=
  ls.foldlM M.step c

@[simp] theorem exec_nil (c : Config σ) : M.exec c [] = some c := rfl

@[simp] theorem exec_cons (c : Config σ) (l : Label ι κ) (ls : List (Label ι κ)) :
    M.exec c (l :: ls) = (M.step c l).bind fun c' => M.exec c' ls := rfl

/-- A run whose steps are all admitted by the guard. -/
inductive Run (G : Guard σ ι κ) (c : Config σ) : List (Label ι κ) → Config σ → Prop
  | nil : Run G c [] c
  | snoc {ls : List (Label ι κ)} {c' c'' : Config σ} (l : Label ι κ) :
      Run G c ls c' → G.admits c'.state l → M.step c' l = some c'' →
        Run G c (ls ++ [l]) c''

variable {M} {G H : Guard σ ι κ}

/-- A step of the machine is an interrupt, an action of the running call, the
end of a wait, or the start of a call. -/
theorem step_cases {c c' : Config σ} {l : Label ι κ} (h : M.step c l = some c') :
    (∃ i s', l = .irq i ∧ M.irq i c.state = some s' ∧ c' = ⟨s', c.rest⟩) ∨
    (∃ f k, l = .main ∧ c.rest = .act f k ∧ c' = ⟨f c.state, k c.state⟩) ∨
    (∃ cond p, l = .main ∧ c.rest = .wait cond p ∧ cond c.state = true ∧
      c' = ⟨c.state, p⟩) ∨
    (∃ k, l = .call k ∧ c.rest = .ret () ∧ c' = ⟨c.state, M.body k⟩) := by
  obtain ⟨s, p⟩ := c
  cases l with
  | irq i =>
      simp only [step, Option.map_eq_some_iff] at h
      obtain ⟨s', hs, rfl⟩ := h
      exact .inl ⟨i, s', rfl, hs, rfl⟩
  | main =>
      cases p with
      | ret a => simp [step] at h
      | act f k =>
          simp only [step, Option.some.injEq] at h
          exact .inr (.inl ⟨f, k, rfl, rfl, h.symm⟩)
      | wait cond p =>
          simp only [step, Option.ite_none_right_eq_some, Option.some.injEq] at h
          exact .inr (.inr (.inl ⟨cond, p, rfl, rfl, h.1, h.2.symm⟩))
  | call k =>
      cases p with
      | ret a =>
          simp only [step, Option.some.injEq] at h
          exact .inr (.inr (.inr ⟨k, rfl, rfl, h.symm⟩))
      | act f g => simp [step] at h
      | wait cond p => simp [step] at h

/-- A run under a guard is a run under every weaker guard. -/
theorem Run.mono {c c' : Config σ} {ls : List (Label ι κ)}
    (hGH : ∀ s l, G.admits s l → H.admits s l)
    (h : M.Run G c ls c') : M.Run H c ls c' := by
  induction h with
  | nil => exact .nil
  | snoc l _ hG hstep ih => exact .snoc l ih (hGH _ l hG) hstep

theorem Run.of_any {c c' : Config σ} {ls : List (Label ι κ)}
    (h : M.Run G c ls c') : M.Run Guard.any c ls c' :=
  h.mono fun _ l _ => by cases l <;> trivial

/-- Runs compose. -/
theorem Run.append {c c' c'' : Config σ} {ls ls' : List (Label ι κ)}
    (h : M.Run G c ls c') (h' : M.Run G c' ls' c'') :
    M.Run G c (ls ++ ls') c'' := by
  induction h' with
  | nil => simpa using h
  | snoc l _ hG hstep ih =>
      rw [← List.append_assoc]
      exact .snoc l ih hG hstep

/-- A run is an execution. -/
theorem exec_of_run {c c' : Config σ} {ls : List (Label ι κ)} (h : M.Run G c ls c') :
    M.exec c ls = some c' := by
  induction h with
  | nil => rfl
  | @snoc ls d d' l _ _ hstep ih =>
      unfold exec at *
      rw [List.foldlM_append, ih]
      simp [hstep]

/-- The steps of an execution are all admitted. -/
def admitted (M : Machine σ ι κ) (G : Guard σ ι κ) [∀ s l, Decidable (G.admits s l)] :
    Config σ → List (Label ι κ) → Bool
  | _, [] => true
  | c, l :: ls => decide (G.admits c.state l) &&
      match M.step c l with
      | some c' => admitted M G c' ls
      | none => false

theorem run_of_exec [∀ s l, Decidable (G.admits s l)] {c c' : Config σ}
    {ls : List (Label ι κ)} (h : M.exec c ls = some c') (hG : M.admitted G c ls = true) :
    M.Run G c ls c' := by
  induction ls generalizing c with
  | nil =>
      rw [exec_nil, Option.some.injEq] at h
      exact h ▸ .nil
  | cons l ls ih =>
      rw [exec_cons, Option.bind_eq_some_iff] at h
      obtain ⟨d, hd, hrest⟩ := h
      simp only [admitted, hd, Bool.and_eq_true, decide_eq_true_eq] at hG
      have hfirst : M.Run G c ([] ++ [l]) d := .snoc l .nil hG.1 hd
      exact hfirst.append (ih hrest hG.2)

/-- A concrete run, with what can be evaluated of its last state. -/
theorem exists_run_of_exec (M : Machine σ ι κ) (G : Guard σ ι κ)
    [∀ s l, Decidable (G.admits s l)] (c : Config σ) (ls : List (Label ι κ))
    (P : σ → Prop) [DecidablePred P] (h : ((M.exec c ls).any fun d => decide (P d.state)) = true)
    (hG : M.admitted G c ls = true) : ∃ d, M.Run G c ls d ∧ P d.state := by
  obtain ⟨d, hd, hP⟩ := (Option.any_eq_true _ _).mp h
  exact ⟨d, run_of_exec hd hG, of_decide_eq_true hP⟩

theorem rest_of_isIdle {c : Config σ} (h : c.isIdle = true) : c.rest = .ret () := by
  obtain ⟨s, p⟩ := c
  cases p with
  | ret a => rfl
  | act f k => simp [Config.isIdle] at h
  | wait cond p => simp [Config.isIdle] at h

/-- A concrete run that ends between two calls. -/
theorem exists_idle_run_of_exec (M : Machine σ ι κ) (G : Guard σ ι κ)
    [∀ s l, Decidable (G.admits s l)] (c : Config σ) (ls : List (Label ι κ))
    (P : σ → Prop) [DecidablePred P]
    (h : ((M.exec c ls).any fun d => d.isIdle && decide (P d.state)) = true)
    (hG : M.admitted G c ls = true) : ∃ d, M.Run G c ls d ∧ d.rest = .ret () ∧ P d.state := by
  obtain ⟨d, hd, hP⟩ := (Option.any_eq_true _ _).mp h
  rw [Bool.and_eq_true] at hP
  exact ⟨d, run_of_exec hd hG, rest_of_isIdle hP.1, of_decide_eq_true hP.2⟩

/-- A concrete run whose last call polls in vain. -/
theorem exists_blocked_run_of_exec (M : Machine σ ι κ) (G : Guard σ ι κ)
    [∀ s l, Decidable (G.admits s l)] (c : Config σ) (ls : List (Label ι κ))
    (P : σ → Prop) [DecidablePred P]
    (h : ((M.exec c ls).any fun d => d.isBlocked && decide (P d.state)) = true)
    (hG : M.admitted G c ls = true) :
    ∃ d, M.Run G c ls d ∧ d.isBlocked = true ∧ P d.state := by
  obtain ⟨d, hd, hP⟩ := (Option.any_eq_true _ _).mp h
  rw [Bool.and_eq_true] at hP
  exact ⟨d, run_of_exec hd hG, hP.1, of_decide_eq_true hP.2⟩

end Machine

end Calipso.Interrupt
