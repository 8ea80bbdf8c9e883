import Calipso.Nbr.Table

/-!
# Runs of the neighbor tables

A run is a sequence of calls of the modules that use the tables and of key updates of neighbor
discovery. A call that adds a neighbor comes with the calls that the callback of each table makes
when it is called; they can add neighbors too.
-/

namespace Calipso.Nbr

open Memory Net Wire

/-- A call of a module that uses the tables. `data f` is what it does to its own items, and
`callbacks` are the calls of the callback of the first table, of the second and so on. -/
inductive Call (σ : Type)
  | remove (table : Nat) (item : Option Nat)
  | lock (table : Nat) (item : Option Nat)
  | unlock (table : Nat) (item : Option Nat)
  | data (f : σ → σ)
  | add (table : Nat) (lladdr : Option Rimeaddr) (callbacks : List (List (Call σ)))

variable {σ : Type}

mutual

def Call.run : Call σ → Table σ → Table σ
  | .remove table item, t => t.remove table item
  | .lock table item, t => t.lock table item
  | .unlock table item, t => t.unlock table item
  | .data f, t => { t with data := f t.data }
  | .add table lladdr callbacks, t =>
    (t.addLladdr (fun i _ => (Call.runEach callbacks).getD i id) table lladdr).value.2

def Call.runAll : List (Call σ) → Table σ → Table σ
  | [], t => t
  | c :: cs, t => Call.runAll cs (c.run t)

def Call.runEach : List (List (Call σ)) → List (Table σ → Table σ)
  | [] => []
  | cs :: css => Call.runAll cs :: Call.runEach css

end

/-- The function pointers of the tables. -/
def callback (callbacks : List (List (Call σ))) (i _ : Nat) : Table σ → Table σ :=
  (Call.runEach callbacks).getD i id

@[simp] theorem callback_eq (callbacks : List (List (Call σ))) (i k : Nat) :
    callback callbacks i k = Call.runAll (callbacks.getD i []) := by
  unfold callback
  induction callbacks generalizing i with
  | nil => funext t; simp [Call.runEach, Call.runAll]
  | cons cs css ih =>
      cases i with
      | zero => rfl
      | succ i => exact ih i

/-- What happens to the tables from outside. -/
inductive Event (σ : Type)
  | register (callback : Bool)
  | call (c : Call σ)
  | update (k : Nat) (lladdr : Lladdr)

def Event.step (t : Table σ) : Event σ → Table σ
  | .register callback => t.register callback
  | .call c => c.run t
  | .update k lladdr => t.update k lladdr

def run (t : Table σ) (es : List (Event σ)) : Table σ := es.foldl Event.step t

/-! ### Calls of a callback -/

/-- `item` is null or has been handed out. -/
def Table.Handed (t : Table σ) (item : Option Nat) : Prop := ∀ k ∈ item, k ∈ t.keys

/-- The call of a callback leaves the list of keys alone: its items have been handed out, and a
neighbor that it adds is listed already and is not the victim. -/
def Call.Quiet (t : Table σ) (victim : Option Nat) : Call σ → Prop
  | .remove _ item => t.Handed item
  | .lock _ item => t.Handed item
  | .unlock _ item => t.Handed item
  | .data _ => True
  | .add _ lladdr _ => ∃ k, t.indexFromLladdr lladdr = some k ∧ some k ≠ victim

/-- Every call of every callback leaves the list of keys alone. -/
def Quiet (t : Table σ) (callbacks : List (List (Call σ))) : Prop :=
  ∀ cs ∈ callbacks, ∀ c ∈ cs, c.Quiet t (t.leastUsed t.keys none)

/-- The items of a call have been handed out, the callbacks leave the list of keys alone, and the
key of a neighbor is updated to an address that no other neighbor has. -/
def Event.Proper (t : Table σ) : Event σ → Prop
  | .register _ => True
  | .call (.add _ _ callbacks) => Quiet t callbacks
  | .call (.remove _ item) => t.Handed item
  | .call (.lock _ item) => t.Handed item
  | .call (.unlock _ item) => t.Handed item
  | .call (.data _) => True
  | .update k lladdr =>
    k ∈ t.keys ∧ ∀ j ∈ t.keys, j ≠ k → t.lladdr j ≠ (t.lladdr k).copyLladdr lladdr

/-- Every event of the run is proper where it happens. -/
def Proper (t : Table σ) : List (Event σ) → Prop
  | [] => True
  | e :: es => e.Proper t ∧ Proper (e.step t) es

end Calipso.Nbr
