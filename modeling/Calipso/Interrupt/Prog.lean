import Mathlib.Logic.Relation

/-!
# Programs that can be interrupted

A main loop on a single core runs its code one atomic action after the other,
and an interrupt handler may run between any two of them. `Prog σ α` is such
code as a tree: `ret a` has finished with the value `a`, and `act f k` changes
the shared state by `f` in one action and goes on with `k s`, where `s` is the
state the action found; `wait c k` polls the shared state until `c` holds there
and goes on with `k`. What a local variable of the code holds is a bound
variable of the tree, so a handler that runs in between changes the shared
state but not the values that were read before.

A section with the interrupts disabled is one action.
-/

namespace Calipso.Interrupt

universe u v

/-- Code of the main loop, split at the points where an interrupt may be taken. -/
inductive Prog (σ : Type u) (α : Type v) : Type (max u v)
  | ret (a : α)
  | act (f : σ → σ) (k : σ → Prog σ α)
  | wait (c : σ → Bool) (k : Prog σ α)

namespace Prog

variable {σ : Type u} {α β γ : Type v}

/-- Run `p`, then go on with `k` on its result. -/
def bind : Prog σ α → (α → Prog σ β) → Prog σ β
  | ret a, k => k a
  | act f g, k => act f fun s => bind (g s) k
  | wait c p, k => wait c (bind p k)

instance : Monad (Prog σ) where
  pure := ret
  bind := bind

/-- One read of the shared state. -/
def read (g : σ → α) : Prog σ α :=
  act id fun s => ret (g s)

/-- One write to the shared state. -/
def modify (f : σ → σ) : Prog σ Unit :=
  act f fun _ => ret ()

/-- A protected section that returns a value of the state it started in. -/
def atomically (g : σ → α) (f : σ → σ) : Prog σ α :=
  act f fun s => ret (g s)

/-- Poll the shared state until the condition holds. -/
def await (c : σ → Bool) : Prog σ Unit :=
  wait c (ret ())

/-- The index of the first element of `l` that passes the test, counted from
`n`; the test is itself interruptible code. -/
def findIndex (test : α → Prog σ Bool) : List α → Nat → Prog σ (Option Nat)
  | [], _ => ret none
  | a :: l, n => do
      let found ← test a
      if found then ret (some n) else findIndex test l (n + 1)

/-- Run the code of every element of `l` in order. -/
def forEach (body : α → Prog σ Unit) : List α → Prog σ Unit
  | [] => ret ()
  | a :: l => do
      body a
      forEach body l

@[simp] theorem pure_eq (a : α) : (pure a : Prog σ α) = ret a := rfl

@[simp] theorem ret_bind (a : α) (k : α → Prog σ β) : (ret a >>= k) = k a := rfl

@[simp] theorem act_bind (f : σ → σ) (g : σ → Prog σ α) (k : α → Prog σ β) :
    (act f g >>= k) = act f fun s => g s >>= k := rfl

@[simp] theorem wait_bind (c : σ → Bool) (p : Prog σ α) (k : α → Prog σ β) :
    (wait c p >>= k) = wait c (p >>= k) := rfl

@[simp] theorem await_bind {β : Type} (c : σ → Bool) (k : Unit → Prog σ β) :
    (await c >>= k) = wait c (k ()) := rfl

@[simp] theorem read_bind (g : σ → α) (k : α → Prog σ β) :
    (read g >>= k) = act id fun s => k (g s) := rfl

@[simp] theorem modify_bind {β : Type} (f : σ → σ) (k : Unit → Prog σ β) :
    (modify f >>= k) = act f fun _ => k () := rfl

@[simp] theorem atomically_bind (g : σ → α) (f : σ → σ) (k : α → Prog σ β) :
    (atomically g f >>= k) = act f fun s => k (g s) := rfl

/-- The run of `p` that no interrupt disturbs, every wait being over at once. -/
def eval : Prog σ α → σ → α × σ
  | ret a, s => (a, s)
  | act f k, s => eval (k s) (f s)
  | wait _ p, s => eval p s

@[simp] theorem eval_ret (a : α) (s : σ) : (ret a).eval s = (a, s) := rfl

@[simp] theorem eval_act (f : σ → σ) (k : σ → Prog σ α) (s : σ) :
    (act f k).eval s = (k s).eval (f s) := rfl

@[simp] theorem eval_wait (c : σ → Bool) (p : Prog σ α) (s : σ) :
    (wait c p).eval s = p.eval s := rfl

theorem eval_bind (p : Prog σ α) (k : α → Prog σ β) (s : σ) :
    (p >>= k).eval s = (k (p.eval s).1).eval (p.eval s).2 := by
  induction p generalizing s with
  | ret a => rfl
  | act f g ih => simp only [act_bind, eval_act, ih]
  | wait c p ih => simp only [wait_bind, eval_wait, ih]

end Prog

end Calipso.Interrupt
