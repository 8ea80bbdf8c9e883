import Calipso.Memory.Heap
import Mathlib.Algebra.Group.Nat.Defs

/-!
# The linked list of `linked_list.h`

The functions of `linked_list.h` on a heap of list nodes and payload blocks. The
empty list is a node whose value is the null pointer, so a list always has a
root. A caller keeps the root that a function returns. `smalloc` and `malloc`
are the same here, and the messages are left out.
-/

namespace Calipso

open Memory

/-- A block of memory: `struct linked_list_t`, or a payload. -/
inductive Block (π : Type)
  | node (val next : Ptr)
  | payload (c : π)
  deriving DecidableEq, Repr

namespace LinkedList

open HeapM

variable {π : Type}

abbrev M (π α : Type) : Type := HeapM (Block π) α

/-- `(p->val, p->next)`. -/
def loadNode (p : Ptr) : M π (Ptr × Ptr) := do
  match ← load p with
  | .node val next => pure (val, next)
  | .payload _ => fault (.wrongBlock (p.getD 0))

/-- `p->val = val`. -/
def storeVal (p val : Ptr) : M π Unit := do
  let (_, next) ← loadNode p
  store p (.node val next)

/-- `p->next = next`. -/
def storeNext (p next : Ptr) : M π Unit := do
  let (val, _) ← loadNode p
  store p (.node val next)

/-- A bound on the turns of a loop along the nodes. -/
def turns : M π Nat := gets fun h => h.bound + 1

/-- `linked_list_init`, on a list that is not initialized yet. -/
def init : M π Ptr := do
  match ← malloc (.node none none) with
  | none => pure none
  | some a => do
      storeNext (some a) none
      storeVal (some a) none
      pure (some a)

/-- `linked_list_is_empty`. -/
def isEmpty (theList : Ptr) : M π Bool :=
  if theList = none then pure true
  else do
    let (val, _) ← loadNode theList
    pure (decide (val = none))

/-- The loop of `linked_list_get_len`; the length is a `uint16_t`. -/
def countNodes : Nat → Ptr → Nat → M π Nat
  | 0, _, _ => fault .unbounded
  | n + 1, theList, length =>
      if theList = none then pure length
      else do
        let (val, next) ← loadNode theList
        if val = none then pure length else countNodes n next ((length + 1) % 2 ^ 16)

/-- `linked_list_get_len`. -/
def getLen (list : Ptr) : M π Nat :=
  if list = none then pure 0
  else do
    let (val, _) ← loadNode list
    if val = none then pure 0
    else do
      let n ← turns
      countNodes n list 0

/-- The walk of `linked_list_add_tail` to the last node, with the counter. -/
def findTail : Nat → Ptr → Nat → M π (Ptr × Nat)
  | 0, _, _ => fault .unbounded
  | n + 1, pos, counter => do
      let (_, next) ← loadNode pos
      if next = none then pure (pos, counter) else findTail n next (counter + 1)

/-- `linked_list_add_tail`: the position of the item, or `-1`. -/
def addTail (theList theVal : Ptr) (maxPosition : Int) : M π Int :=
  if theVal = none then pure (-1)
  else if theList = none then pure (-1)
  else do
    let (val, next) ← loadNode theList
    if val = none then do
      storeVal theList theVal
      if next = none then pure 0 else pure (-1)
    else do
      let n ← turns
      let (pos, counter) ← findTail n theList 1
      if maxPosition ≤ counter then pure (-1)
      else do
        let new ← malloc (.node none none)
        storeNext pos new
        if new = none then pure (-1)
        else do
          storeVal new theVal
          storeNext new none
          pure counter

/-- `linked_list_add_to_front`. -/
def addToFront (list newElement : Ptr) : M π Ptr :=
  if newElement = none then pure list
  else if list = none then pure none
  else do
    let (val, next) ← loadNode list
    if val = none then
      if next = none then do
        storeVal list newElement
        pure list
      else pure none
    else do
      let root ← malloc (.node none none)
      if root = none then pure none
      else do
        storeVal root newElement
        storeNext root list
        pure root

/-- `linked_list_get`. -/
protected def get (theList : Ptr) : M π Ptr :=
  if theList = none then pure none
  else do
    let (val, _) ← loadNode theList
    pure val

/-- The loop of `linked_list_get_element_at`. -/
def stepTo : Nat → Ptr → Ptr → M π Ptr
  | 0, _, item => pure item
  | index + 1, theList, _ => do
      let (_, next) ← loadNode theList
      let (item, _) ← loadNode next
      stepTo index next item

/-- `linked_list_get_element_at`. -/
def getElementAt (list : Ptr) (index : Nat) : M π Ptr :=
  if list = none then pure none
  else do
    let len ← getLen list
    if len ≤ index then pure none
    else do
      let (item, _) ← loadNode list
      stepTo index list item

/-- `linked_list_remove_first`. -/
def removeFirst (theList : Ptr) : M π Ptr :=
  if theList = none then pure none
  else do
    let empty ← isEmpty theList
    if empty then pure theList
    else do
      let (val, next) ← loadNode theList
      free val
      storeVal theList none
      if next = none then pure theList
      else do
        free theList
        pure next

/-- `linked_list_pop_first`. A single element stays in the list. -/
def popFirst (theList : Ptr) : M π Ptr :=
  if theList = none then pure none
  else do
    let empty ← isEmpty theList
    if empty then pure theList
    else do
      let (val, next) ← loadNode theList
      if next = none then pure theList
      else do
        free val
        storeVal theList none
        free theList
        pure next

/-- `linked_list_remove_first_deep`. -/
def removeFirstDeep (theList : Ptr) : M π Ptr :=
  if theList = none then pure none
  else do
    let empty ← isEmpty theList
    if empty then pure theList
    else do
      let (val, next) ← loadNode theList
      if next = none then do
        free val
        storeVal theList none
        pure theList
      else do
        free val
        free theList
        pure next

/-- The loop of the two functions that erase a list. -/
def eraseWith (remove : Ptr → M π Ptr) : Nat → Ptr → M π Ptr
  | 0, _ => fault .unbounded
  | n + 1, theList => do
      let empty ← isEmpty theList
      if empty then pure theList
      else do
        let next ← remove theList
        eraseWith remove n next

/-- `linked_list_erase`: the caller keeps the root it has. -/
def erase (list : Ptr) : M π Unit := do
  let n ← turns
  let _ ← eraseWith removeFirst n list
  pure ()

/-- `linked_list_erase_deep`: the caller's root is written. -/
def eraseDeep (list : Ptr) : M π Ptr := do
  let n ← turns
  eraseWith removeFirstDeep n list

/-- The walk of `linked_list_remove_element_at`: the node before, and the node. -/
def walkTo : Nat → Ptr → Ptr → M π (Ptr × Ptr)
  | 0, prev, theList => pure (prev, theList)
  | index + 1, _, theList => do
      let (_, next) ← loadNode theList
      walkTo index theList next

/-- `linked_list_remove_element_at`. -/
def removeElementAt (list : Ptr) (index : Nat) : M π Ptr :=
  if list = none then pure none
  else do
    let len ← getLen list
    if len ≤ index then pure none
    else if index = 0 then popFirst list
    else do
      let (prev, theList) ← walkTo index none list
      if prev = none then pure none
      else do
        let (_, next) ← loadNode theList
        storeNext prev next
        free theList
        pure list

/-- `linked_list_move_to_front`. -/
def moveToFront (list : Ptr) (index : Nat) : M π Ptr :=
  if list = none then pure none
  else if index = 0 then pure list
  else do
    let len ← getLen list
    if len ≤ index then pure none
    else do
      let element ← getElementAt list index
      let list ← removeElementAt list index
      addToFront list element

end LinkedList

end Calipso
