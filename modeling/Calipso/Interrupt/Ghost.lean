import Calipso.Interrupt.Rely

/-!
# Ghost state

What a program did can be written to a ghost state beside the state it works on. `Prog.lift`
runs code that leaves the ghost state alone. A program over both states shadows a program over
the first one when each of its actions does the same to the first state and it goes on alike;
a machine whose calls are shadowed has the same runs, with the ghost state as a record of them.
-/

namespace Calipso.Interrupt

universe u v w

variable {σ γ : Type u} {α β : Type v}

namespace Prog

/-- The same code beside a ghost state. -/
def lift (γ : Type u) : Prog σ α → Prog (σ × γ) α
  | ret a => ret a
  | act f k => act (fun s => (f s.1, s.2)) fun s => lift γ (k s.1)
  | wait c p => wait (fun s => c s.1) (lift γ p)

/-- The first program is the second one as far as the first state goes. -/
def Shadows : Prog (σ × γ) α → Prog σ α → Prop
  | ret a, p =>
    match p with
    | ret b => a = b
    | act _ _ => False
    | wait _ _ => False
  | act f k, p =>
    match p with
    | ret _ => False
    | act g l => ∀ s, (f s).1 = g s.1 ∧ Shadows (k s) (l s.1)
    | wait _ _ => False
  | wait c q, p =>
    match p with
    | ret _ => False
    | act _ _ => False
    | wait d r => (∀ s, c s = d s.1) ∧ Shadows q r

namespace Shadows

theorem ret (a : α) : Shadows (.ret a : Prog (σ × γ) α) (.ret a) := rfl

theorem lift (p : Prog σ α) : Shadows (p.lift γ) p := by
  induction p with
  | ret a => rfl
  | act f k ih => exact fun s => ⟨rfl, ih s.1⟩
  | wait c p ih => exact ⟨fun _ => rfl, ih⟩

theorem bind {p : Prog (σ × γ) α} {q : Prog σ α} {k : α → Prog (σ × γ) β} {l : α → Prog σ β}
    (h : Shadows p q) (hk : ∀ a, Shadows (k a) (l a)) : Shadows (p >>= k) (q >>= l) := by
  induction p generalizing q with
  | ret a =>
    cases q with
    | ret b =>
      cases h
      exact hk a
    | act g r => exact h.elim
    | wait d r => exact h.elim
  | act f r ih =>
    cases q with
    | ret b => exact h.elim
    | act g l => exact fun s => ⟨(h s).1, ih s (h s).2⟩
    | wait d l => exact h.elim
  | wait c r ih =>
    cases q with
    | ret b => exact h.elim
    | act g l => exact h.elim
    | wait d l => exact ⟨h.1, ih h.2⟩

/-- A section that writes to the ghost state as well. -/
theorem atomically {g : σ × γ → α} {g' : σ → α} {f : σ × γ → σ × γ} {f' : σ → σ}
    (hg : ∀ s, g s = g' s.1) (hf : ∀ s, (f s).1 = f' s.1) :
    Shadows (Prog.atomically g f) (Prog.atomically g' f') :=
  fun s => ⟨hf s, hg s⟩

end Shadows

end Prog

namespace Acts

variable {P : (σ → σ) → Prop} {p : Prog σ α}

/-- The actions of lifted code. -/
theorem lift (h : Acts P p) :
    Acts (fun f : σ × γ → σ × γ => ∃ g, P g ∧ f = fun s => (g s.1, s.2)) (p.lift γ) := by
  induction p with
  | ret a => trivial
  | act f k ih => exact ⟨⟨f, h.1, rfl⟩, fun s => ih s.1 (h.2 s.1)⟩
  | wait c p ih => exact ih h

/-- What every action keeps holds at the end of an undisturbed run. -/
theorem eval {I : σ → Prop} {s : σ} (h : Acts P p) (hact : ∀ f t, P f → I t → I (f t))
    (hs : I s) : I (p.eval s).2 := by
  induction p generalizing s with
  | ret a => exact hs
  | act f k ih => exact ih s (h.2 s) (hact f s h.1 hs)
  | wait c p ih => exact ih h hs

end Acts

/-- A read of lifted code keeps both states. -/
theorem Sat.lift_read_bind {α β : Type v} {r : Rely (σ × γ)} {g : σ → α}
    {k : α → Prog (σ × γ) β} {Q : β → σ × γ → Prop} {s : σ × γ}
    (h : ∀ t, r.rel s t → r.inv t → Sat r (k (g t.1)) Q t) :
    Sat r ((Prog.read g).lift γ >>= k) Q s :=
  fun t hst ht => ⟨ht, h t hst ht⟩

namespace Machine

variable {ι : Type v} {κ : Type w} (M : Machine σ ι κ)

/-- The machine beside a ghost state that only its calls write to. -/
def ghost (body : κ → Prog (σ × γ) Unit) : Machine (σ × γ) ι κ where
  irq i s := (M.irq i s.1).map fun t => (t, s.2)
  body := body

/-- The first configuration is the second one as far as the first state goes. -/
structure Shadowed (c : Config (σ × γ)) (d : Config σ) : Prop where
  state : c.state.1 = d.state
  rest : c.rest.Shadows d.rest

variable {M} {body : κ → Prog (σ × γ) Unit} {c c' : Config (σ × γ)} {d d' : Config σ}

theorem Shadowed.step (h : Shadowed c d) (hbody : ∀ k, (body k).Shadows (M.body k))
    {l : Label ι κ} (hs : M.step d l = some d') :
    ∃ c', (M.ghost body).step c l = some c' ∧ Shadowed c' d' := by
  obtain ⟨⟨s, g⟩, p⟩ := c
  obtain ⟨t, q⟩ := d
  obtain ⟨rfl, hrest⟩ := h
  cases l with
  | irq i =>
    obtain ⟨t', ht', rfl⟩ := Option.map_eq_some_iff.1 hs
    refine ⟨⟨(t', g), p⟩, ?_, ⟨rfl, hrest⟩⟩
    simp only [Machine.step, ghost, Option.map_eq_some_iff]
    exact ⟨(t', g), ⟨t', ht', rfl⟩, rfl⟩
  | main =>
    cases q with
    | ret a => cases hs
    | act f k =>
      cases p with
      | ret b => exact hrest.elim
      | act f' k' =>
        cases hs
        obtain ⟨hf, hk⟩ := hrest (s, g)
        exact ⟨⟨f' (s, g), k' (s, g)⟩, rfl, ⟨hf, hk⟩⟩
      | wait c' p' => exact hrest.elim
    | wait cond q =>
      cases p with
      | ret b => exact hrest.elim
      | act f' k' => exact hrest.elim
      | wait c' p' =>
        simp only [Machine.step, Option.ite_none_right_eq_some, Option.some.injEq] at hs
        obtain ⟨hcond, rfl⟩ := hs
        refine ⟨⟨(s, g), p'⟩, ?_, ⟨rfl, hrest.2⟩⟩
        simp only [Machine.step]
        exact if_pos ((hrest.1 (s, g)).trans hcond)
  | call k =>
    cases q with
    | ret a =>
      cases p with
      | ret b =>
        cases hs
        exact ⟨⟨(s, g), body k⟩, rfl, ⟨rfl, hbody k⟩⟩
      | act f' k' => exact hrest.elim
      | wait c' p' => exact hrest.elim
    | act f l => cases hs
    | wait cond q => cases hs

/-- Every run has a record. -/
theorem Run.exists_ghost {ls : List (Label ι κ)} (hrun : M.Run .any d ls d')
    (hbody : ∀ k, (body k).Shadows (M.body k)) (h : Shadowed c d) :
    ∃ c', (M.ghost body).Run .any c ls c' ∧ Shadowed c' d' := by
  induction hrun with
  | nil => exact ⟨c, .nil, h⟩
  | snoc l _ hG hs ih =>
    obtain ⟨c₁, hrun₁, h₁⟩ := ih
    obtain ⟨c₂, hs₂, h₂⟩ := h₁.step hbody hs
    exact ⟨c₂, hrun₁.snoc l (by cases l <;> trivial) hs₂, h₂⟩

end Machine

end Calipso.Interrupt
