import Calipso.Interrupt.Elapse

/-!
# Runs in which conditions are met

A state may keep a bit that is cleared by the first step that breaks a condition. What is proved
of code is then proved for the runs in which the bit is still set: from an action on that breaks
a condition nothing is left to prove. `Conditional` ties an invariant and an interference to such
a bit, and has the rules for code under it.
-/

namespace Calipso.Interrupt

universe u v

variable {σ : Type u} {α β : Type v}

/-- A broken condition stays broken. -/
def KeepsMet (met : σ → Bool) (f : σ → σ) : Prop :=
  ∀ s, met (f s) = true → met s = true

/-- The invariant holds, and the interference is bounded, while the conditions are met. -/
structure Conditional (met : σ → Bool) (r : Rely σ) (I : σ → Prop) : Prop where
  inv : ∀ s, r.inv s ↔ (met s = true → I s)
  met : ∀ {s t}, r.rel s t → met t = true → met s = true

theorem KeepsMet.of_eq {met : σ → Bool} {f : σ → σ} (h : ∀ s, met (f s) = met s) :
    KeepsMet met f :=
  fun s hf => h s ▸ hf

/-- A handler does not mend a broken condition. -/
theorem KeepsMet.elapse {met : σ → Bool} {tick : σ → σ} {p : Prog σ α}
    (htick : KeepsMet met tick) (hp : Acts (KeepsMet met) p) (lags : List Nat) :
    KeepsMet met (p.elapse tick lags) := fun s h =>
  Prog.elapse_rel (R := fun s t => met t = true → met s = true) (fun _ => id)
    (fun {s t u} (h : met t = true → met s = true) (h' : met u = true → met t = true) hu =>
      h (h' hu)) htick hp lags s h

namespace Conditional

variable {met : σ → Bool} {r : Rely σ} {I : σ → Prop} {P : σ → Prop} {s : σ}

/-- Nothing is left to prove when a condition is broken. -/
theorem sat_unmet (hr : Conditional met r I) {p : Prog σ α} (hp : Acts (KeepsMet met) p)
    (hs : met s = false) : Sat r p (fun _ t => met t = true → P t) s := by
  have hfalse : ∀ t, ¬ met t = true → r.inv t := fun t ht =>
    (hr.inv t).2 fun hmet => absurd hmet ht
  refine (hp.sat (J := fun t => ¬ met t = true) (fun f t hf _ ht => ?_)
    (fun t u ht htu hu => ht (hr.met htu hu)) (by rw [hs]; nofun)).mono
    fun _ t _ ht hmet => absurd hmet ht
  exact ⟨hfalse _ fun h => ht (hf t h), fun h => ht (hf t h)⟩

/-- The rule for one action. -/
theorem sat_act (hr : Conditional met r I) {f : σ → σ} {k : σ → Prog σ α}
    (hp : Acts (KeepsMet met) (.act f k))
    (h : ∀ t, r.rel s t → met t = true → met s = true → I t → met (f t) = true →
      I (f t) ∧ Sat r (k t) (fun _ u => met u = true → P u) (f t)) :
    Sat r (.act f k) (fun _ u => met u = true → P u) s := by
  intro t hst ht
  by_cases hft : met (f t) = true
  · have htm := hp.1 t hft
    have hI := h t hst htm (hr.met hst htm) ((hr.inv t).1 ht htm) hft
    exact ⟨(hr.inv _).2 fun _ => hI.1, hI.2⟩
  · exact ⟨(hr.inv _).2 fun hmet => absurd hmet hft,
      hr.sat_unmet (hp.2 t) (by simpa using hft)⟩

/-- The rule for the end. -/
theorem sat_ret (hr : Conditional met r I) {a : α}
    (h : ∀ t, r.rel s t → met t = true → I t → P t) :
    Sat r (.ret a) (fun _ u => met u = true → P u) s :=
  fun t hst ht hmet => h t hst hmet ((hr.inv t).1 ht hmet)

/-- The rule for sequencing. -/
theorem seq (hr : Conditional met r I) {p : Prog σ α} {k : α → Prog σ β} {J : α → σ → Prop}
    (h : Sat r p (fun a t => met t = true → J a t) s) (hs : r.inv s)
    (hacts : ∀ a, Acts (KeepsMet met) (k a))
    (hk : ∀ a t, met t = true → I t → J a t → Sat r (k a) (fun _ u => met u = true → P u) t) :
    Sat r (p >>= k) (fun _ u => met u = true → P u) s := by
  refine h.seq hs fun a t ht hJ => ?_
  by_cases hmet : met t = true
  · exact hk a t hmet ((hr.inv t).1 ht hmet) (hJ hmet)
  · exact hr.sat_unmet (hacts a) (by simpa using hmet)

end Conditional

end Calipso.Interrupt
