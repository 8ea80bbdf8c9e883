import Mathlib.Control.Monad.Writer

/-!
# Code that leaves a log

A parser is judged by what it does on its way as much as by its result: the
bytes it reads, the lengths it computes, the slices it passes on. `Log ε α` is
code that returns an `α` and leaves such a list of entries.

`Log.All P x` says that every entry of the log satisfies `P`. It is computed
along the code: a step of the code is judged at the value the code before it has
returned.
-/

namespace Calipso.Wire

variable {ε α β : Type}

/-- Code that returns an `α` and leaves a list of entries. -/
abbrev Log (ε α : Type) := Writer (List ε) α

namespace Log

/-- Leave one entry. -/
def entry (e : ε) : Log ε Unit := MonadWriter.tell [e]

/-- What the code returns. -/
def value (x : Log ε α) : α := (WriterT.run x).1

/-- The entries the code leaves, in order. -/
def entries (x : Log ε α) : List ε := (WriterT.run x).2

/-- Every entry of the log satisfies `P`. -/
def All (P : ε → Prop) (x : Log ε α) : Prop := ∀ e ∈ x.entries, P e

variable {P : ε → Prop}

theorem ext {x y : Log ε α} (hvalue : x.value = y.value) (hentries : x.entries = y.entries) :
    x = y :=
  Prod.ext hvalue hentries

@[simp] theorem value_pure (a : α) : (pure a : Log ε α).value = a := rfl

@[simp] theorem entries_pure (a : α) : (pure a : Log ε α).entries = [] := rfl

@[simp] theorem value_entry (e : ε) : (entry e).value = () := rfl

@[simp] theorem entries_entry (e : ε) : (entry e).entries = [e] := rfl

@[simp] theorem value_bind (x : Log ε α) (f : α → Log ε β) :
    (x >>= f).value = (f x.value).value := rfl

@[simp] theorem entries_bind (x : Log ε α) (f : α → Log ε β) :
    (x >>= f).entries = x.entries ++ (f x.value).entries := rfl

@[simp] theorem all_pure (a : α) : (pure a : Log ε α).All P := by
  simp [All]

@[simp] theorem all_entry (e : ε) : (entry e).All P ↔ P e := by
  simp [All]

@[simp] theorem all_bind (x : Log ε α) (f : α → Log ε β) :
    (x >>= f).All P ↔ x.All P ∧ (f x.value).All P := by
  simp [All, or_imp, forall_and]

-- the instance is not looked up, so that the rules apply behind a rewritten condition
@[simp] theorem value_ite {c : Prop} {_ : Decidable c} {x y : Log ε α} :
    (if c then x else y).value = if c then x.value else y.value := by
  split <;> rfl

@[simp] theorem all_ite {c : Prop} {_ : Decidable c} {x y : Log ε α} :
    (if c then x else y).All P ↔ (c → x.All P) ∧ (¬ c → y.All P) := by
  split
  next h => simp [h]
  next h => simp [h]

instance [DecidablePred P] (x : Log ε α) : Decidable (x.All P) :=
  inferInstanceAs (Decidable (∀ e ∈ x.entries, P e))

end Log

end Calipso.Wire
