import Mathlib.Data.List.MinMax
import Calipso.Memory.Follow
import Calipso.Memory.Memb
import Calipso.Net.Rimeaddr
import Calipso.Wire.Log

/-!
# The neighbor tables

`nbr_table.c`: one list of link-layer addresses is the key of all tables. A neighbor is the index
of its key in `neighbor_addr_mem`, and so is its item in each table. The tables are numbered in
the order in which they are registered.

What the items hold belongs to the modules that use the tables and is the type `σ`.
-/

namespace Calipso.Nbr

open Memory Net Wire

/-- `MAX_NUM_TABLES` -/
def maxNumTables : Nat := 8

/-- The state of `nbr_table.c`. `tables` says of each table that is registered whether it has a
callback. -/
structure Table (σ : Type) where
  mem : Memb
  keys : List Nat
  lladdr : Nat → Rimeaddr
  used : Nat → Finset Nat
  locked : Nat → Finset Nat
  tables : List Bool
  data : σ

/-- `nbr_set_bit` -/
def setBit (bitmap : Nat → Finset Nat) (table : Nat) (item : Option Nat) (value : Bool) :
    Nat → Finset Nat :=
  match item with
  | some k =>
    Function.update bitmap k
      (if value then insert table (bitmap k) else (bitmap k).erase table)
  | none => bitmap

namespace Table

variable {σ : Type} (t : Table σ)

/-- Before the first table is registered, with room for `size` neighbors. -/
def init (size : Nat) (data : σ) : Table σ where
  mem := .empty size
  keys := []
  lladdr := fun _ => .null
  used := fun _ => ∅
  locked := fun _ => ∅
  tables := []
  data := data

/-- `nbr_table_register` -/
def register (callback : Bool) : Table σ :=
  if t.tables.length < maxNumTables then { t with tables := t.tables ++ [callback] } else t

/-! ### Lookups -/

/-- `index_from_lladdr` -/
def indexFromLladdr (lladdr : Option Rimeaddr) : Option Nat :=
  t.keys.find? fun k => lladdr.getD .null = t.lladdr k

/-- `nbr_table_get_from_lladdr` -/
def getFromLladdr (table : Nat) (lladdr : Option Rimeaddr) : Option Nat :=
  match t.indexFromLladdr lladdr with
  | some k => if table ∈ t.used k then some k else none
  | none => none

/-- `nbr_table_get_lladdr` -/
def getLladdr (item : Option Nat) : Option Rimeaddr := item.map t.lladdr

/-- `nbr_table_next` -/
def next (table item : Nat) : Option Nat :=
  (behind t.keys item).find? fun k => table ∈ t.used k

/-- `nbr_table_head` -/
def head (table : Nat) : Option Nat :=
  match t.keys.head? with
  | some k => if table ∈ t.used k then some k else t.next table k
  | none => none

/-! ### Flags -/

/-- `nbr_table_remove` -/
def remove (table : Nat) (item : Option Nat) : Table σ :=
  { t with used := setBit t.used table item false, locked := setBit t.locked table item false }

/-- `nbr_table_lock` -/
def lock (table : Nat) (item : Option Nat) : Table σ :=
  { t with locked := setBit t.locked table item true }

/-- `nbr_table_unlock` -/
def unlock (table : Nat) (item : Option Nat) : Table σ :=
  { t with locked := setBit t.locked table item false }

/-! ### Addition -/

/-- The loop of `nbr_table_allocate` over the keys, with `least_used_key` and
`least_used_count`. -/
def leastUsed : List Nat → Option (Nat × Nat) → Option Nat
  | [], least => least.map Prod.fst
  | k :: ks, least =>
    if (t.locked k).Nonempty then
      leastUsed ks least
    else if least.all fun l => (t.used k).card < l.2 then
      -- no key is used less than a key that is not used
      if (t.used k).card = 0 then some k else leastUsed ks (some (k, (t.used k).card))
    else
      leastUsed ks least

/-- The loop of `nbr_table_allocate` over the tables. The tables whose callback is called are left
in the log. -/
def callCallbacks (callback : Nat → Nat → Table σ → Table σ) (k : Nat) :
    List Nat → Table σ → Log Nat (Table σ)
  | [], t => pure t
  | i :: is, t =>
    if t.tables[i]? = some true ∧ i ∈ t.used k then do
      Log.entry i
      callCallbacks callback k is (callback i k t)
    else
      callCallbacks callback k is t

/-- `nbr_table_allocate`; `callback i k` is what the callback of the table `i` does for the
item `k`. -/
def allocate (callback : Nat → Nat → Table σ → Table σ) : Log Nat (Option Nat × Table σ) :=
  match t.mem.alloc with
  | some (k, mem) => pure (some k, { t with mem := mem })
  | none =>
    match t.leastUsed t.keys none with
    | none => pure (none, t)
    | some k => do
      let t ← callCallbacks callback k (List.range maxNumTables) t
      pure (some k, { t with used := Function.update t.used k ∅, keys := t.keys.erase k })

/-- The key `k` at the end of the list, with its address. -/
def addKey (k : Nat) (lladdr : Option Rimeaddr) : Table σ :=
  { t with
    keys := t.keys.erase k ++ [k], lladdr := Function.update t.lladdr k (lladdr.getD .null) }

/-- The end of `nbr_table_add_lladdr`. -/
def use (table k : Nat) : Table σ := { t with used := setBit t.used table (some k) true }

/-- `nbr_table_add_lladdr` -/
def addLladdr (callback : Nat → Nat → Table σ → Table σ) (table : Nat)
    (lladdr : Option Rimeaddr) : Log Nat (Option Nat × Table σ) :=
  match t.indexFromLladdr lladdr with
  | some k => pure (some k, t.use table k)
  | none => do
    match ← t.allocate callback with
    | (none, t) => pure (none, t)
    | (some k, t) => pure (some k, (t.addKey k lladdr).use table k)

/-! ### Neighbor discovery -/

/-- What the handlers of neighbor solicitations, neighbor advertisements and router
advertisements do to the key of a neighbor that has another link-layer address. -/
def update (k : Nat) (lladdr : Lladdr) : Table σ :=
  { t with lladdr := Function.update t.lladdr k ((t.lladdr k).copyLladdr lladdr) }

end Table

end Calipso.Nbr
