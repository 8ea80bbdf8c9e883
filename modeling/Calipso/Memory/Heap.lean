import Mathlib.Tactic.ByContra

/-!
# A heap with checked access

Memory is a finite set of blocks at addresses that are never given out twice, so
a block that has been freed is told from every block allocated later. An access
outside the blocks is a fault, and so is the freeing of anything but a block.
Whether an allocation succeeds is decided by the environment: `outcome` is the
sequence of its answers.

`Wp m Q h` says that `m` runs from `h` without a fault and ends with `Q`.
-/

namespace Calipso.Memory

universe u v

/-- A pointer; `none` is `NULL`. -/
abbrev Ptr := Option Nat

inductive Fault
  | nullDeref
  | dangling (a : Nat)
  | wrongBlock (a : Nat)
  | badFree (a : Nat)
  /-- A loop did not end within its bound. -/
  | unbounded
  deriving DecidableEq, Repr

/-- The blocks in use. No block has ever been at an address from `bound` on. -/
structure Heap (β : Type u) where
  get : Nat → Option β
  bound : Nat
  outcome : Nat → Bool
  requests : Nat
  get_of_bound_le : ∀ a, bound ≤ a → get a = none

variable {β : Type u} {α γ : Type v}

namespace Heap

/-- The next allocation succeeds. -/
def willAlloc (h : Heap β) : Bool := h.outcome h.requests

theorem lt_bound {h : Heap β} {a : Nat} {b : β} (ha : h.get a = some b) : a < h.bound := by
  by_contra hle
  rw [h.get_of_bound_le a (Nat.le_of_not_lt hle)] at ha
  cases ha

/-- The block at `a` is replaced, or released. -/
def set (h : Heap β) (a : Nat) (b : Option β) (ha : a < h.bound) : Heap β where
  get x := if x = a then b else h.get x
  bound := h.bound
  outcome := h.outcome
  requests := h.requests
  get_of_bound_le x hx := by
    rw [if_neg (by omega)]
    exact h.get_of_bound_le x hx

@[simp] theorem set_get_self (h : Heap β) (a : Nat) (b : Option β) (ha : a < h.bound) :
    (h.set a b ha).get a = b := by
  simp [set]

theorem set_get_of_ne (h : Heap β) {a x : Nat} (b : Option β) (ha : a < h.bound)
    (hx : x ≠ a) : (h.set a b ha).get x = h.get x := by
  simp [set, hx]

@[simp] theorem set_bound (h : Heap β) (a : Nat) (b : Option β) (ha : a < h.bound) :
    (h.set a b ha).bound = h.bound := rfl

@[simp] theorem set_willAlloc (h : Heap β) (a : Nat) (b : Option β) (ha : a < h.bound) :
    (h.set a b ha).willAlloc = h.willAlloc := rfl

/-- A new block at the first unused address. -/
def push (h : Heap β) (b : β) : Heap β where
  get x := if x = h.bound then some b else h.get x
  bound := h.bound + 1
  outcome := h.outcome
  requests := h.requests + 1
  get_of_bound_le x hx := by
    rw [if_neg (by omega)]
    exact h.get_of_bound_le x (by omega)

@[simp] theorem push_get_bound (h : Heap β) (b : β) : (h.push b).get h.bound = some b := by
  simp [push]

theorem push_get_of_ne (h : Heap β) (b : β) {x : Nat} (hx : x ≠ h.bound) :
    (h.push b).get x = h.get x := by
  simp [push, hx]

/-- What was allocated stays where it is. -/
theorem push_get_of_some (h : Heap β) (b : β) {x : Nat} {c : β} (hx : h.get x = some c) :
    (h.push b).get x = some c := by
  rw [push_get_of_ne h b (Nat.ne_of_lt (lt_bound hx)), hx]

/-- An allocation that failed. -/
def refuse (h : Heap β) : Heap β :=
  { h with requests := h.requests + 1 }

@[simp] theorem refuse_get (h : Heap β) : h.refuse.get = h.get := rfl

end Heap

/-- No freed block is in use again later. -/
structure Later (h h' : Heap β) : Prop where
  dead : ∀ a, a < h.bound → h.get a = none → h'.get a = none
  bound : h.bound ≤ h'.bound

theorem Later.refl (h : Heap β) : Later h h := ⟨fun _ _ ha => ha, Nat.le_refl _⟩

theorem Later.trans {h h' h'' : Heap β} (hl : Later h h') (hl' : Later h' h'') :
    Later h h'' where
  dead a hlt ha := hl'.dead a (Nat.lt_of_lt_of_le hlt hl.bound) (hl.dead a hlt ha)
  bound := Nat.le_trans hl.bound hl'.bound

/-- Code that works on a heap. -/
def HeapM (β : Type u) (α : Type v) : Type (max u v) := Heap β → Except Fault (α × Heap β)

namespace HeapM

instance : Monad (HeapM.{u, v} β) where
  pure a := fun h => .ok (a, h)
  bind m k := fun h =>
    match m h with
    | .error e => .error e
    | .ok (a, h') => k a h'

def fault (e : Fault) : HeapM β α := fun _ => .error e

/-- What `f` says of the heap. -/
def gets (f : Heap β → α) : HeapM β α := fun h => .ok (f h, h)

/-- The block a pointer points to. -/
def load : Ptr → HeapM β β
  | none => fault .nullDeref
  | some a => fun h =>
      match h.get a with
      | none => .error (.dangling a)
      | some b => .ok (b, h)

def store (p : Ptr) (b : β) : HeapM.{u, 0} β Unit :=
  match p with
  | none => fault .nullDeref
  | some a => fun h =>
      match hb : h.get a with
      | none => .error (.dangling a)
      | some _ => .ok ((), h.set a (some b) (Heap.lt_bound hb))

/-- `free`; the null pointer is ignored. -/
def free : Ptr → HeapM.{u, 0} β Unit
  | none => pure ()
  | some a => fun h =>
      match hb : h.get a with
      | none => .error (.badFree a)
      | some _ => .ok ((), h.set a none (Heap.lt_bound hb))

/-- `malloc`, with what the block holds at first. -/
def malloc (b : β) : HeapM.{u, 0} β Ptr := fun h =>
  if h.willAlloc then .ok (some h.bound, h.push b) else .ok (none, h.refuse)

end HeapM

/-- `m` runs from `h` without a fault and ends with `Q`. -/
def Wp (m : HeapM β α) (Q : α → Heap β → Prop) (h : Heap β) : Prop :=
  ∃ a h', m h = .ok (a, h') ∧ Q a h'

namespace Wp

open HeapM

variable {m : HeapM β α} {k : α → HeapM β γ} {h : Heap β}

theorem pure {a : α} {Q : α → Heap β → Prop} (hQ : Q a h) : Wp (pure a) Q h :=
  ⟨a, h, rfl, hQ⟩

theorem mono {Q Q' : α → Heap β → Prop} (hm : Wp m Q h) (hQ : ∀ a h', Q a h' → Q' a h') :
    Wp m Q' h := by
  obtain ⟨a, h', heq, hpost⟩ := hm
  exact ⟨a, h', heq, hQ a h' hpost⟩

/-- The rule for sequencing. -/
theorem bind {Q : γ → Heap β → Prop} (hm : Wp m (fun a h' => Wp (k a) Q h') h) :
    Wp (m >>= k) Q h := by
  obtain ⟨a, h', heq, c, h'', hk, hQ⟩ := hm
  refine ⟨c, h'', ?_, hQ⟩
  simp only [Bind.bind, heq]
  exact hk

theorem gets {f : Heap β → α} {Q : α → Heap β → Prop} (hQ : Q (f h) h) : Wp (gets f) Q h :=
  ⟨f h, h, rfl, hQ⟩

theorem load {a : Nat} {b : β} {Q : β → Heap β → Prop} (ha : h.get a = some b) (hQ : Q b h) :
    Wp (load (some a)) Q h := by
  refine ⟨b, h, ?_, hQ⟩
  simp only [HeapM.load, ha]

theorem store {a : Nat} {b c : β} {Q : Unit → Heap β → Prop} (ha : h.get a = some c)
    (hQ : Q () (h.set a (some b) (Heap.lt_bound ha))) : Wp (store (some a) b) Q h := by
  refine ⟨(), _, ?_, hQ⟩
  simp only [HeapM.store]
  split
  next hn =>
    rw [ha] at hn
    cases hn
  next => rfl

theorem free {a : Nat} {b : β} {Q : Unit → Heap β → Prop} (ha : h.get a = some b)
    (hQ : Q () (h.set a none (Heap.lt_bound ha))) : Wp (free (some a)) Q h := by
  refine ⟨(), _, ?_, hQ⟩
  simp only [HeapM.free]
  split
  next hn =>
    rw [ha] at hn
    cases hn
  next => rfl

/-- An allocation gives the first unused address, or the null pointer. -/
theorem malloc {b : β} {Q : Ptr → Heap β → Prop}
    (hok : h.willAlloc = true → Q (some h.bound) (h.push b))
    (hno : h.willAlloc = false → Q none h.refuse) : Wp (malloc b) Q h := by
  cases hw : h.willAlloc with
  | true =>
      refine ⟨some h.bound, h.push b, ?_, hok hw⟩
      simp [HeapM.malloc, hw]
  | false =>
      refine ⟨none, h.refuse, ?_, hno hw⟩
      simp [HeapM.malloc, hw]

/-- What is proved of a run holds of its result. -/
theorem of_eq {Q : α → Heap β → Prop} {a : α} {h' : Heap β} (hm : Wp m Q h)
    (heq : m h = .ok (a, h')) : Q a h' := by
  obtain ⟨a', h'', heq', hQ⟩ := hm
  rw [heq, Except.ok.injEq, Prod.mk.injEq] at heq'
  obtain ⟨rfl, rfl⟩ := heq'
  exact hQ

/-- A run has one result, which is all that is proved of it. -/
theorem and {Q Q' : α → Heap β → Prop} (hm : Wp m Q h) (hm' : Wp m Q' h) :
    ∃ a h', Q a h' ∧ Q' a h' := by
  obtain ⟨a, h', heq, hQ⟩ := hm
  exact ⟨a, h', hQ, hm'.of_eq heq⟩

end Wp

end Calipso.Memory
