import Mathlib.Logic.Function.Iterate
import Calipso.Interrupt.Rely

/-!
# Handlers that take time

A handler is one transition of a `Machine`, because no other handler and no code of the main
loop runs in between. Its environment does not stand still meanwhile: `Prog.elapse` runs the code
of a handler to its end, and lets the environment make a number of steps before each of its
actions. What `Sat` says of the code under an interference that contains these steps holds at its
end.
-/

namespace Calipso.Interrupt

universe u v

variable {σ : Type u} {α β : Type v}

/-- Run the code to its end; before each action the environment makes as many steps as the next
number of the list, and none when the list is at its end. -/
def Prog.elapse (tick : σ → σ) : Prog σ α → List Nat → σ → σ
  | ret _, _, s => s
  | act f k, [], s => elapse tick (k s) [] (f s)
  | act f k, lag :: lags, s => elapse tick (k (tick^[lag] s)) lags (f (tick^[lag] s))
  | wait _ p, lags, s => elapse tick p lags s

namespace Prog

variable {tick : σ → σ} {R : σ → σ → Prop}

/-- What holds between the states before and after every step holds from the start to the
end. -/
theorem elapse_rel (hrefl : ∀ s, R s s) (htrans : ∀ {s t u}, R s t → R t u → R s u)
    (htick : ∀ s, R s (tick s)) {p : Prog σ α} (hp : Acts (fun f => ∀ s, R s (f s)) p)
    (lags : List Nat) (s : σ) : R s (p.elapse tick lags s) := by
  have hlag : ∀ n s, R s (tick^[n] s) := by
    intro n
    induction n with
    | zero => exact hrefl
    | succ n ih => exact fun s => htrans (htick s) (ih (tick s))
  induction p generalizing lags s with
  | ret a => exact hrefl s
  | act f k ih =>
    cases lags with
    | nil => exact htrans (hp.1 s) (ih s (hp.2 s) [] (f s))
    | cons lag lags =>
      exact htrans (hlag lag s) (htrans (hp.1 _) (ih _ (hp.2 _) lags _))
  | wait c p ih => exact ih hp lags s

end Prog

/-- Code without waits. -/
def Prog.Waitless : Prog σ α → Prop
  | .ret _ => True
  | .act _ k => ∀ s, Waitless (k s)
  | .wait _ _ => False

namespace Prog.Waitless

theorem bind {p : Prog σ α} {k : α → Prog σ β} (hp : p.Waitless) (hk : ∀ a, (k a).Waitless) :
    (p >>= k).Waitless := by
  induction p with
  | ret a => exact hk a
  | act f g ih => exact fun s => ih s (hp s)
  | wait c p ih => exact hp.elim

theorem forEach {γ : Type} {body : γ → Prog σ Unit} (h : ∀ a, (body a).Waitless) (l : List γ) :
    (Prog.forEach body l).Waitless := by
  induction l with
  | nil => trivial
  | cons a l ih => exact (h a).bind fun _ => ih

end Prog.Waitless

/-- The rule for a handler: what its code is proved to satisfy under the steps of the
environment holds when it has run. -/
theorem Sat.elapse {r : Rely σ} {tick : σ → σ} {p : Prog σ α} {Q : α → σ → Prop} {s : σ}
    (htick : ∀ s, r.inv s → r.inv (tick s) ∧ r.rel s (tick s)) (hp : p.Waitless)
    (h : Sat r p Q s) (hs : r.inv s) (lags : List Nat) :
    r.inv (p.elapse tick lags s) ∧ ∃ a, Q a (p.elapse tick lags s) := by
  have hlag : ∀ n s, r.inv s → r.inv (tick^[n] s) ∧ r.rel s (tick^[n] s) := by
    intro n
    induction n with
    | zero => exact fun s hs => ⟨hs, r.refl s⟩
    | succ n ih =>
      intro s hs
      have hstep := htick s hs
      have hrest := ih (tick s) hstep.1
      exact ⟨hrest.1, r.trans hstep.2 hrest.2⟩
  induction p generalizing s lags with
  | ret a => exact ⟨hs, a, h s (r.refl s) hs⟩
  | act f k ih =>
    cases lags with
    | nil =>
      obtain ⟨hinv, hk⟩ := h s (r.refl s) hs
      exact ih s (hp s) hk hinv []
    | cons lag lags =>
      have hl := hlag lag s hs
      obtain ⟨hinv, hk⟩ := h _ hl.2 hl.1
      exact ih _ (hp _) hk hinv lags
  | wait c p ih => exact hp.elim

end Calipso.Interrupt
