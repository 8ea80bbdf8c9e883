import Mathlib.Data.List.Basic

/-!
# Bounded queues

What a queue of a given capacity may answer. `History cap l q` says that the calls `l`, each with its
answer, are calls on one such queue that was empty at first and holds `q` in the end.
-/

namespace Calipso.Memory

/-- A call with its answer: whether there was room, or what was first in the queue. -/
inductive Call (β : Type*)
  | put (x : β) (ok : Bool)
  | get (x : Option β)

variable {β : Type*}

/-- One call on a queue. -/
inductive Answers (cap : ℕ) : List β → Call β → List β → Prop
  | put {q : List β} {x : β} (h : q.length < cap) : Answers cap q (.put x true) (q ++ [x])
  | full {q : List β} {x : β} (h : q.length = cap) : Answers cap q (.put x false) q
  | get {q : List β} {x : β} : Answers cap (x :: q) (.get (some x)) q
  | empty : Answers cap [] (.get none) []

inductive History (cap : ℕ) : List (Call β) → List β → Prop
  | nil : History cap [] []
  | snoc {l : List (Call β)} {c : Call β} {q q' : List β} (h : History cap l q)
      (hc : Answers cap q c q') : History cap (l ++ [c]) q'

end Calipso.Memory
