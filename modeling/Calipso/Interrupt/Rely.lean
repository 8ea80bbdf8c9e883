import Calipso.Interrupt.Machine

/-!
# Reasoning about interruptible code

`Rely` fixes an invariant of the shared state and a preorder that bounds what
the interrupts may do to it. `Sat r p Q s` says of the code `p` started in `s`
that each of its actions keeps the invariant and that it ends with `Q`, however
the interrupts of `r` are interleaved. It is a weakest precondition, computed
along the code, and it composes with `bind`.

`Machine.Run.sound` is the rule for whole runs: the handlers stay inside the
preorder and every call satisfies `Sat`, so the invariant holds in every state.
-/

namespace Calipso.Interrupt

universe u v w

/-- An invariant and a bound on the interference. -/
structure Rely (σ : Type u) where
  inv : σ → Prop
  rel : σ → σ → Prop
  refl : ∀ s, rel s s
  trans : ∀ {s t u}, rel s t → rel t u → rel s u

variable {σ : Type u} {α β : Type v}

/-- Both invariants and both bounds. -/
def Rely.and (r q : Rely σ) : Rely σ where
  inv s := r.inv s ∧ q.inv s
  rel s t := r.rel s t ∧ q.rel s t
  refl s := ⟨r.refl s, q.refl s⟩
  trans h h' := ⟨r.trans h.1 h'.1, q.trans h.2 h'.2⟩

/-- The invariant is kept by every action and `Q` holds at the end, under any
interference bounded by `r`. -/
def Sat (r : Rely σ) : Prog σ α → (α → σ → Prop) → σ → Prop
  | .ret a, Q, s => ∀ t, r.rel s t → r.inv t → Q a t
  | .act f k, Q, s => ∀ t, r.rel s t → r.inv t → r.inv (f t) ∧ Sat r (k t) Q (f t)
  | .wait c p, Q, s => ∀ t, r.rel s t → r.inv t → c t = true → Sat r p Q t

namespace Sat

variable {r q : Rely σ} {s t : σ}

/-- Nothing is asked of the end of the code. -/
theorem ret_true (a : α) : Sat r (.ret a) (fun _ _ => True) s :=
  fun _ _ _ => trivial

/-- A read keeps the invariant, so only the rest of the code is left to check. -/
theorem read_bind {α β : Type v} {g : σ → α} {k : α → Prog σ β} {Q : β → σ → Prop}
    (h : ∀ t, r.rel s t → r.inv t → Sat r (k (g t)) Q t) :
    Sat r (Prog.read g >>= k) Q s :=
  fun t hst ht => ⟨ht, h t hst ht⟩

theorem modify_bind {β : Type} {f : σ → σ} {k : Unit → Prog σ β} {Q : β → σ → Prop}
    (h : ∀ t, r.rel s t → r.inv t → r.inv (f t) ∧ Sat r (k ()) Q (f t)) :
    Sat r (Prog.modify f >>= k) Q s :=
  fun t hst ht => h t hst ht

theorem atomically_bind {α β : Type v} {g : σ → α} {f : σ → σ} {k : α → Prog σ β}
    {Q : β → σ → Prop}
    (h : ∀ t, r.rel s t → r.inv t → r.inv (f t) ∧ Sat r (k (g t)) Q (f t)) :
    Sat r (Prog.atomically g f >>= k) Q s :=
  fun t hst ht => h t hst ht

theorem modify {f : σ → σ} {Q : Unit → σ → Prop}
    (h : ∀ t, r.rel s t → r.inv t → r.inv (f t) ∧ ∀ u, r.rel (f t) u → r.inv u → Q () u) :
    Sat r (Prog.modify f) Q s :=
  fun t hst ht => h t hst ht

/-- Interference before the code starts changes nothing. -/
theorem stable {p : Prog σ α} {Q : α → σ → Prop}
    (h : Sat r p Q s) (hst : r.rel s t) : Sat r p Q t := by
  cases p with
  | ret a => exact fun u htu => h u (r.trans hst htu)
  | act f k => exact fun u htu => h u (r.trans hst htu)
  | wait c p => exact fun u htu => h u (r.trans hst htu)

theorem mono {p : Prog σ α} {Q Q' : α → σ → Prop}
    (h : Sat r p Q s) (hQ : ∀ a t, r.inv t → Q a t → Q' a t) : Sat r p Q' s := by
  induction p generalizing s with
  | ret a => exact fun t hst ht => hQ a t ht (h t hst ht)
  | act f k ih => exact fun t hst ht => ⟨(h t hst ht).1, ih t (h t hst ht).2⟩
  | wait c p ih => exact fun t hst ht hc => ih (h t hst ht hc)

/-- The rule for sequencing. -/
theorem bind {p : Prog σ α} {k : α → Prog σ β} {Q : β → σ → Prop}
    (h : Sat r p (fun a t => Sat r (k a) Q t) s) (hs : r.inv s) :
    Sat r (p >>= k) Q s := by
  induction p generalizing s with
  | ret a => exact h s (r.refl s) hs
  | act f g ih =>
      exact fun t hst ht => ⟨(h t hst ht).1, ih t (h t hst ht).2 (h t hst ht).1⟩
  | wait c p ih => exact fun t hst ht hc => ih (h t hst ht hc) ht

/-- What holds after the first part is all the second part is told. -/
theorem seq {p : Prog σ α} {k : α → Prog σ β} {J : α → σ → Prop} {Q : β → σ → Prop}
    (h : Sat r p J s) (hs : r.inv s)
    (hk : ∀ a t, r.inv t → J a t → Sat r (k a) Q t) : Sat r (p >>= k) Q s :=
  bind (h.mono fun a t => hk a t) hs

/-- The element `findIndex` stops at satisfies what its test has shown. -/
theorem findIndex {γ : Type} {test : γ → Prog σ Bool} {J : γ → σ → Prop}
    (htest : ∀ a t, r.inv t → Sat r (test a) (fun found u => found = true → J a u) t)
    (hrel : ∀ a t u, J a t → r.rel t u → J a u) (l : List γ) (n : Nat) (hs : r.inv s) :
    Sat r (Prog.findIndex test l n)
      (fun found t => ∀ i, found = some i → ∃ a, n ≤ i ∧ l[i - n]? = some a ∧ J a t) s := by
  induction l generalizing n s with
  | nil => exact fun t _ _ i hi => by cases hi
  | cons a l ih =>
      refine (htest a s hs).seq hs fun found t ht hJ => ?_
      split
      next hfound =>
        intro u htu _ i hi
        cases hi
        exact ⟨a, Nat.le_refl n, by simp, hrel a t u (hJ hfound) htu⟩
      next =>
        refine (ih (n + 1) ht).mono fun found u _ hu i hi => ?_
        obtain ⟨b, hle, hb, hJb⟩ := hu i hi
        refine ⟨b, by omega, ?_, hJb⟩
        rw [show i - n = (i - (n + 1)) + 1 by omega, List.getElem?_cons_succ]
        exact hb

/-- The tests before the element `findIndex` stops at have all failed; `J` says
what that tells of the elements so far. -/
theorem findIndex_before {γ : Type} {test : γ → Prog σ Bool} {J : List γ → σ → Prop}
    (htest : ∀ done a t, r.inv t → J done t →
      Sat r (test a) (fun found u => if found = true then J done u else J (done ++ [a]) u) t)
    (hrel : ∀ done t u, J done t → r.rel t u → J done u) (l done : List γ) (n : Nat)
    (hn : done.length = n) (hs : r.inv s) (hJ : J done s) :
    Sat r (Prog.findIndex test l n)
      (fun found t => match found with
        | none => J (done ++ l) t
        | some i => J ((done ++ l).take i) t) s := by
  induction l generalizing done n s with
  | nil =>
      intro t hst _
      simpa using hrel done s t hJ hst
  | cons a l ih =>
      refine (htest done a s hs hJ).seq hs fun found t ht hfound => ?_
      split
      next h =>
        rw [if_pos h] at hfound
        intro u htu _
        have htake : (done ++ a :: l).take n = done := by
          rw [← hn]
          exact List.take_left
        simp only [htake]
        exact hrel done t u hfound htu
      next h =>
        rw [if_neg h] at hfound
        have hlen : (done ++ [a]).length = n + 1 := by simp [hn]
        have hsplit : done ++ [a] ++ l = done ++ a :: l := by simp
        rw [← hsplit]
        exact ih (done ++ [a]) (n + 1) hlen ht hfound

/-- Two results about the same code hold together. -/
theorem and {p : Prog σ α} {Q Q' : α → σ → Prop}
    (h : Sat r p Q s) (h' : Sat q p Q' s) :
    Sat (r.and q) p (fun a t => Q a t ∧ Q' a t) s := by
  induction p generalizing s with
  | ret a => exact fun t hst ht => ⟨h t hst.1 ht.1, h' t hst.2 ht.2⟩
  | act f k ih =>
      intro t hst ht
      obtain ⟨hf, hk⟩ := h t hst.1 ht.1
      obtain ⟨hf', hk'⟩ := h' t hst.2 ht.2
      exact ⟨⟨hf, hf'⟩, ih t hk hk'⟩
  | wait c p ih => exact fun t hst ht hc => ih (h t hst.1 ht.1 hc) (h' t hst.2 ht.2 hc)

end Sat

/-- Every action of the code, wherever it stands, satisfies `P`. -/
def Acts (P : (σ → σ) → Prop) : Prog σ α → Prop
  | .ret _ => True
  | .act f k => P f ∧ ∀ s, Acts P (k s)
  | .wait _ p => Acts P p

namespace Acts

variable {P : (σ → σ) → Prop} {f : σ → σ} {g : σ → α}

theorem ret (a : α) : Acts P (.ret a : Prog σ α) := trivial

theorem bind {p : Prog σ α} {k : α → Prog σ β} (hp : Acts P p) (hk : ∀ a, Acts P (k a)) :
    Acts P (p >>= k) := by
  induction p with
  | ret a => exact hk a
  | act f g ih => exact ⟨hp.1, fun s => ih s (hp.2 s)⟩
  | wait c p ih => exact ih hp

theorem mono {Q : (σ → σ) → Prop} {p : Prog σ α} (hp : Acts P p) (h : ∀ f, P f → Q f) :
    Acts Q p := by
  induction p with
  | ret a => trivial
  | act f k ih => exact ⟨h f hp.1, fun s => ih s (hp.2 s)⟩
  | wait c p ih => exact ih hp

theorem read (hid : P id) : Acts P (Prog.read g) := ⟨hid, fun _ => trivial⟩

theorem modify (hf : P f) : Acts P (Prog.modify f) := ⟨hf, fun _ => trivial⟩

theorem await {c : σ → Bool} : Acts P (Prog.await c) := trivial

theorem atomically (hf : P f) : Acts P (Prog.atomically g f) := ⟨hf, fun _ => trivial⟩

theorem findIndex {γ : Type} {test : γ → Prog σ Bool} (h : ∀ a, Acts P (test a))
    (l : List γ) (n : Nat) : Acts P (Prog.findIndex test l n) := by
  induction l generalizing n with
  | nil => exact trivial
  | cons a l ih =>
      refine bind (h a) fun found => ?_
      split
      · exact trivial
      · exact ih (n + 1)

theorem forEach {γ : Type} {body : γ → Prog σ Unit} (h : ∀ a, Acts P (body a))
    (l : List γ) : Acts P (Prog.forEach body l) := by
  induction l with
  | nil => exact trivial
  | cons a l ih => exact bind (h a) fun _ => ih

/-- What every action and all interference keep holds at the end. -/
theorem sat {r : Rely σ} {J : σ → Prop} {p : Prog σ α} {s : σ} (hp : Acts P p)
    (hact : ∀ f t, P f → r.inv t → J t → r.inv (f t) ∧ J (f t))
    (hrel : ∀ t u, J t → r.rel t u → J u) (hs : J s) :
    Sat r p (fun _ t => J t) s := by
  induction p generalizing s with
  | ret a => exact fun t hst _ => hrel s t hs hst
  | act f k ih =>
      intro t hst ht
      have hft := hact f t hp.1 ht (hrel s t hs hst)
      exact ⟨hft.1, ih t (hp.2 t) hft.2⟩
  | wait c p ih => exact fun t hst _ _ => ih hp (hrel s t hs hst)

/-- Code whose actions all keep the invariant. -/
theorem sat_true {r : Rely σ} {p : Prog σ α} {s : σ} (hp : Acts P p)
    (hact : ∀ f t, P f → r.inv t → r.inv (f t)) : Sat r p (fun _ _ => True) s :=
  hp.sat (fun f t hf ht _ => ⟨hact f t hf ht, trivial⟩) (fun _ _ _ _ => trivial) trivial

/-- Code that only reads keeps what no interference destroys. -/
theorem sat_reads {r : Rely σ} {J : σ → Prop} {p : Prog σ α} {s : σ} (hp : Acts (· = id) p)
    (hrel : ∀ t u, J t → r.rel t u → J u) (hs : J s) : Sat r p (fun _ t => J t) s := by
  refine hp.sat (fun f t hf ht hJ => ?_) hrel hs
  rw [hf]
  exact ⟨ht, hJ⟩

end Acts

namespace Machine

variable {ι : Type v} {κ : Type w} {M : Machine σ ι κ} {G : Guard σ ι κ}

/-- The invariant holds along every admitted run, and what is left of the
running call still satisfies its specification. `Q` holds between the calls. -/
theorem Run.sound {r : Rely σ} {Q : σ → Prop} {c c' : Config σ} {ls : List (Label ι κ)}
    (hirq : ∀ i s s', r.inv s → G.irq i s → M.irq i s = some s' → r.inv s' ∧ r.rel s s')
    (hcall : ∀ k s, r.inv s → Q s → G.call k s → Sat r (M.body k) (fun _ t => Q t) s)
    (hc : r.inv c.state) (hrest : Sat r c.rest (fun _ t => Q t) c.state)
    (h : M.Run G c ls c') :
    r.inv c'.state ∧ Sat r c'.rest (fun _ t => Q t) c'.state := by
  induction h with
  | nil => exact ⟨hc, hrest⟩
  | @snoc ls d d' l _ hG hstep ih =>
      obtain ⟨hinv, hsat⟩ := ih
      obtain ⟨i, s', rfl, hi, rfl⟩ | ⟨f, k, rfl, hk, rfl⟩ | ⟨c, p, rfl, hk, hc, rfl⟩ |
        ⟨k, rfl, hk, rfl⟩ := step_cases hstep
      · have hs' := hirq i d.state s' hinv hG hi
        exact ⟨hs'.1, hsat.stable hs'.2⟩
      · rw [hk] at hsat
        exact hsat d.state (r.refl _) hinv
      · rw [hk] at hsat
        exact ⟨hinv, hsat d.state (r.refl _) hinv hc⟩
      · rw [hk] at hsat
        exact ⟨hinv, hcall k d.state hinv (hsat d.state (r.refl _) hinv) hG⟩

/-- From an idle configuration, for the invariant alone. -/
theorem Run.inv {r : Rely σ} {s : σ} {c : Config σ} {ls : List (Label ι κ)}
    (hirq : ∀ i s s', r.inv s → G.irq i s → M.irq i s = some s' → r.inv s' ∧ r.rel s s')
    (hcall : ∀ k s, r.inv s → G.call k s → Sat r (M.body k) (fun _ _ => True) s)
    (hs : r.inv s) (h : M.Run G (.idle s) ls c) : r.inv c.state :=
  (Run.sound (Q := fun _ => True) (c := Config.idle s) hirq (fun k s hs _ => hcall k s hs) hs
    (Sat.ret_true _) h).1

/-- From an idle configuration, for what holds between the calls. -/
theorem Run.between {r : Rely σ} {Q : σ → Prop} {s : σ} {c : Config σ}
    {ls : List (Label ι κ)}
    (hirq : ∀ i s s', r.inv s → G.irq i s → M.irq i s = some s' → r.inv s' ∧ r.rel s s')
    (hcall : ∀ k s, r.inv s → Q s → G.call k s → Sat r (M.body k) (fun _ t => Q t) s)
    (hrel : ∀ s t, Q s → r.rel s t → Q t) (hs : r.inv s) (hQ : Q s)
    (h : M.Run G (.idle s) ls c) (hc : c.rest = .ret ()) : Q c.state := by
  have hsound := Run.sound (c := Config.idle s) hirq hcall hs (fun t hst _ => hrel s t hQ hst) h
  have hrest := hsound.2
  rw [hc] at hrest
  exact hrest c.state (r.refl _) hsound.1

end Machine

end Calipso.Interrupt
