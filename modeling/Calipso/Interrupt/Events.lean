import Mathlib.Tactic

/-!
# Systems of events

A system answers each event with its next state, or not at all where the event cannot happen.
A guard says which events are admitted in a state, and `EventRun` is a finite run all of whose
events are admitted.
-/

namespace Calipso.Interrupt

universe u v

variable {σ : Type u} {ε : Type v}

/-- The state after a list of events. -/
def execEvents (step : σ → ε → Option σ) (s : σ) (es : List ε) : Option σ :=
  es.foldlM step s

@[simp] theorem execEvents_cons (step : σ → ε → Option σ) (s : σ) (e : ε) (es : List ε) :
    execEvents step s (e :: es) = (step s e).bind fun s' => execEvents step s' es := rfl

/-- A run of events that are all admitted. -/
inductive EventRun (step : σ → ε → Option σ) (G : ε → σ → Prop) (s : σ) : List ε → σ → Prop
  | nil : EventRun step G s [] s
  | snoc {es : List ε} {s' s'' : σ} (e : ε) :
      EventRun step G s es s' → G e s' → step s' e = some s'' →
        EventRun step G s (es ++ [e]) s''

namespace EventRun

variable {step : σ → ε → Option σ} {G H : ε → σ → Prop} {s s' s'' : σ} {es es' : List ε}

/-- What holds at the start and is kept by every admitted event holds after a run. -/
theorem inv {P : σ → Prop} (h : EventRun step G s es s') (h0 : P s)
    (hstep : ∀ {t t' : σ} {e : ε}, P t → G e t → step t e = some t' → P t') : P s' := by
  induction h with
  | nil => exact h0
  | snoc e _ hG hs ih => exact hstep ih hG hs

theorem trans (h : EventRun step G s es s') (h' : EventRun step G s' es' s'') :
    EventRun step G s (es ++ es') s'' := by
  induction h' with
  | nil => rwa [List.append_nil]
  | snoc e _ hG hs ih =>
    rw [← List.append_assoc]
    exact ih.snoc e hG hs

theorem mono (h : EventRun step G s es s') (hGH : ∀ e t, G e t → H e t) :
    EventRun step H s es s' := by
  induction h with
  | nil => exact .nil
  | snoc e _ hG hs ih => exact ih.snoc e (hGH _ _ hG) hs

end EventRun

/-- The guard admits each of the events where it happens. -/
def admitsAll (step : σ → ε → Option σ) (G : ε → σ → Prop) : σ → List ε → Prop
  | _, [] => True
  | s, e :: es =>
    G e s ∧ match step s e with
      | some s' => admitsAll step G s' es
      | none => False

instance admitsAll.decidable (step : σ → ε → Option σ) (G : ε → σ → Prop)
    [∀ e s, Decidable (G e s)] : ∀ s es, Decidable (admitsAll step G s es)
  | _, [] => isTrue trivial
  | s, e :: es => by
    unfold admitsAll
    cases h : step s e with
    | none => exact isFalse (fun h' => h'.2)
    | some s' =>
      have := admitsAll.decidable step G s' es
      infer_instance

/-- Admitted events make a run to the state they lead to. -/
theorem exists_eventRun {step : σ → ε → Option σ} {G : ε → σ → Prop} {es : List ε} :
    ∀ {s : σ}, admitsAll step G s es →
      ∃ s', execEvents step s es = some s' ∧ EventRun step G s es s' := by
  induction es with
  | nil => exact fun {s} _ => ⟨s, rfl, .nil⟩
  | cons e es ih =>
    intro s h
    simp only [admitsAll] at h
    cases hs : step s e with
    | none => rw [hs] at h; exact h.2.elim
    | some t =>
      rw [hs] at h
      obtain ⟨s', hexec, hrun⟩ := ih h.2
      refine ⟨s', by rw [execEvents_cons, hs]; exact hexec, ?_⟩
      exact (EventRun.nil.snoc e h.1 hs).trans hrun

end Calipso.Interrupt
