import Calipso.Lib.List

/-!
# Managed memory

`mmem.c`: blocks that lie back to back in a pool and are moved down when one before them is freed.
A block is named by the `struct mmem` that its owner holds; the owner stores bytes through the
pointer in it. The pool has `mmemSize` bytes. Places in it are counted from its beginning.
-/

namespace Calipso.Lib

variable {α : Type*}

/-- The list of the blocks, the fields of their structures, and the pool. -/
structure Mmem (α : Type*) where
  mmemlist : Lists α
  size : α → Nat
  ptr : α → Nat
  availMemory : Nat
  memory : Nat → UInt8

namespace Mmem

/-- `mmem_init` -/
def init (mmemSize : Nat) (s : Mmem α) : Mmem α :=
  { s with mmemlist := s.mmemlist.init, availMemory := mmemSize }

/-- `memmove` of `n` bytes within the pool. -/
def move (memory : Nat → UInt8) (dest src n : Nat) : Nat → UInt8 := fun x =>
  if dest ≤ x ∧ x < dest + n then memory (src + (x - dest)) else memory x

variable [DecidableEq α]

/-- `mmem_alloc`, with whether there was room. -/
def alloc (mmemSize n : Nat) (s : Mmem α) (m : α) (size : Nat) : Option (Bool × Mmem α) :=
  if s.availMemory < size then some (false, s)
  else (s.mmemlist.add n m).map fun mmemlist =>
    (true,
      { s with
        mmemlist := mmemlist
        ptr := Function.update s.ptr m (mmemSize - s.availMemory)
        size := Function.update s.size m size
        availMemory := s.availMemory - size })

/-- The loop of `mmem_free` over the blocks behind the one that is freed. -/
def lower (next : α → Option α) (size : Nat) : Nat → Option α → (α → Nat) → Option (α → Nat)
  | _, none, ptr => some ptr
  | 0, some _, _ => none
  | k + 1, some a, ptr => lower next size k (next a) (Function.update ptr a (ptr a - size))

/-- The blocks behind `m` are moved down. -/
def compact (mmemSize n : Nat) (s : Mmem α) (m : α) : Option (Mmem α) :=
  match s.mmemlist.next m with
  | none => some s
  | some b =>
    (lower s.mmemlist.next (s.size m) n (some b) s.ptr).map fun ptr =>
      { s with
        memory := move s.memory (s.ptr m) (s.ptr b) (mmemSize - s.availMemory - s.ptr b)
        ptr := ptr }

/-- `mmem_free` -/
def free (mmemSize n : Nat) (s : Mmem α) (m : α) : Option (Mmem α) :=
  (s.compact mmemSize n m).bind fun s =>
    (s.mmemlist.remove n m).map fun mmemlist =>
      { s with mmemlist := mmemlist, availMemory := s.availMemory + s.size m }

/-- The owner of a block stores a byte in it. -/
def store (s : Mmem α) (m : α) (i : Nat) (b : UInt8) : Mmem α :=
  { s with memory := Function.update s.memory (s.ptr m + i) b }

/-- What a block holds. -/
def contents (s : Mmem α) (m : α) : List UInt8 :=
  (List.range (s.size m)).map fun i => s.memory (s.ptr m + i)

/-! ### Runs -/

inductive Event (α : Type*)
  | alloc (m : α) (size : Nat)
  | free (m : α)
  | store (m : α) (i : Nat) (b : UInt8)

/-- The allocator, and the blocks that its users have, in the order in which they got them. -/
structure Users (α : Type*) where
  mmem : Mmem α
  live : List α

/-- An event, with loops of at most `n` rounds. -/
def Users.step (mmemSize n : Nat) (u : Users α) : Event α → Option (Users α)
  | .alloc m size => (u.mmem.alloc mmemSize n m size).map fun r =>
      ⟨r.2, if r.1 then u.live ++ [m] else u.live⟩
  | .free m => (u.mmem.free mmemSize n m).map fun s => ⟨s, u.live.erase m⟩
  | .store m i b => some { u with mmem := u.mmem.store m i b }

def Users.run (mmemSize n : Nat) : Users α → List (Event α) → Option (Users α)
  | u, [] => some u
  | u, e :: evs => (u.step mmemSize n e).bind fun u => Users.run mmemSize n u evs

/-- Users allocate blocks that they do not have, and free and use blocks that they have. -/
def Users.Allows (u : Users α) : Event α → Prop
  | .alloc m _ => m ∉ u.live
  | .free m => m ∈ u.live
  | .store m i _ => m ∈ u.live ∧ i < u.mmem.size m

instance (u : Users α) : (e : Event α) → Decidable (u.Allows e)
  | .alloc m _ => inferInstanceAs (Decidable (m ∉ u.live))
  | .free m => inferInstanceAs (Decidable (m ∈ u.live))
  | .store m i _ => inferInstanceAs (Decidable (m ∈ u.live ∧ i < u.mmem.size m))

/-- Each event is allowed where it comes. -/
def Users.AllowsAll (mmemSize n : Nat) : Users α → List (Event α) → Prop
  | _, [] => True
  | u, e :: evs => u.Allows e ∧ ∀ u', u.step mmemSize n e = some u' → u'.AllowsAll mmemSize n evs

end Mmem

end Calipso.Lib
