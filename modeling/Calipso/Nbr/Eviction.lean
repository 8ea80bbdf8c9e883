import Calipso.Nbr.Calls

/-!
# Eviction from the neighbor tables

The invariant of the list of keys, and what an addition to a full list does: it reuses the key
that the fewest tables use, the oldest of these, and calls the callback of each table that uses it.
-/

namespace Calipso.Nbr

open Memory Net Wire

variable {σ : Type} {t t' : Table σ} {i k table : Nat} {lladdr : Option Rimeaddr}
  {callbacks : List (List (Call σ))}

/-! ### Bits -/

/-- Only the keys of the list have bits. -/
def Listed (bitmap : Nat → Finset Nat) (keys : List Nat) : Prop :=
  ∀ k, (bitmap k).Nonempty → k ∈ keys

theorem setBit_of_ne {bitmap : Nat → Finset Nat} {item : Option Nat} {value : Bool}
    (h : item ≠ some k) : setBit bitmap table item value k = bitmap k := by
  cases item with
  | none => rfl
  | some j =>
      have hne : k ≠ j := fun hkj => h (hkj ▸ rfl)
      simp [setBit, Function.update_of_ne hne]

theorem setBit_self {bitmap : Nat → Finset Nat} {value : Bool} :
    setBit bitmap table (some k) value k =
      if value then insert table (bitmap k) else (bitmap k).erase table := by
  simp [setBit]

theorem Listed.setBit {bitmap : Nat → Finset Nat} {keys : List Nat} {item : Option Nat}
    (h : Listed bitmap keys) (hitem : ∀ k ∈ item, k ∈ keys) (table : Nat) (value : Bool) :
    Listed (setBit bitmap table item value) keys := by
  intro k hk
  by_cases hki : item = some k
  · exact hitem k hki
  · rw [setBit_of_ne hki] at hk
    exact h k hk

/-! ### Keys -/

/-- The keys of the list are the allocated ones, no two of them have one address, and no other
key has a bit. -/
structure Table.Keyed (t : Table σ) : Prop where
  holds : t.mem.Holds t.keys
  distinct : ∀ j ∈ t.keys, ∀ k ∈ t.keys, t.lladdr j = t.lladdr k → j = k
  used : Listed t.used t.keys
  locked : Listed t.locked t.keys
  registered : t.tables.length ≤ maxNumTables

theorem keyed_init (size : Nat) (data : σ) : (Table.init size data).Keyed where
  holds := Memb.holds_empty size
  distinct := by simp [Table.init]
  used := by simp [Table.init, Listed]
  locked := by simp [Table.init, Listed]
  registered := by simp [Table.init]

theorem mem_of_indexFromLladdr (h : t.indexFromLladdr lladdr = some k) : k ∈ t.keys :=
  List.mem_of_find?_eq_some h

theorem ne_of_indexFromLladdr (h : t.indexFromLladdr lladdr = none) (hk : k ∈ t.keys) :
    t.lladdr k ≠ lladdr.getD .null := by
  have hmissing := List.find?_eq_none.mp h k hk
  simpa [eq_comm] using hmissing

namespace Table.Keyed

theorem register (h : t.Keyed) (callback : Bool) : (t.register callback).Keyed := by
  unfold Table.register
  split
  next hlt => exact { h with registered := by simpa using hlt }
  next => exact h

theorem remove (h : t.Keyed) {item : Option Nat} (hitem : t.Handed item) (table : Nat) :
    (t.remove table item).Keyed :=
  { h with
    used := h.used.setBit hitem table false
    locked := h.locked.setBit hitem table false }

theorem lock (h : t.Keyed) {item : Option Nat} (hitem : t.Handed item) (table : Nat) :
    (t.lock table item).Keyed :=
  { h with locked := h.locked.setBit hitem table true }

theorem unlock (h : t.Keyed) {item : Option Nat} (hitem : t.Handed item) (table : Nat) :
    (t.unlock table item).Keyed :=
  { h with locked := h.locked.setBit hitem table false }

theorem use (h : t.Keyed) (hk : k ∈ t.keys) (table : Nat) : (t.use table k).Keyed :=
  { h with used := h.used.setBit (by simpa using hk) table true }

theorem update (h : t.Keyed) {l : Lladdr}
    (hfresh : ∀ j ∈ t.keys, j ≠ k → t.lladdr j ≠ (t.lladdr k).copyLladdr l) :
    (t.update k l).Keyed := by
  refine { h with distinct := ?_ }
  intro i hi j hj hij
  simp only [Table.update, Function.update_apply] at hij
  split at hij
  next hik =>
    split at hij
    next hjk => exact hik.trans hjk.symm
    next hjk => exact absurd hij.symm (hfresh j hj hjk)
  next hik =>
    split at hij
    next hjk => exact absurd hij (hfresh i hi hik)
    next hjk => exact h.distinct i hi j hj hij

end Table.Keyed

/-! ### Choice of the victim -/

/-- The keys that no table locks. -/
def Table.unlocked (t : Table σ) (keys : List Nat) : List Nat :=
  keys.filter fun k => ¬ (t.locked k).Nonempty

theorem unlocked_cons_of_locked {keys : List Nat} (h : (t.locked k).Nonempty) :
    t.unlocked (k :: keys) = t.unlocked keys := by
  unfold Table.unlocked
  rw [List.filter_cons_of_neg]
  simpa using h.ne_empty

theorem unlocked_cons_of_not_locked {keys : List Nat} (h : ¬ (t.locked k).Nonempty) :
    t.unlocked (k :: keys) = k :: t.unlocked keys := by
  unfold Table.unlocked
  rw [List.filter_cons_of_pos]
  simpa using h

theorem argmin_cons_cons {α β : Type*} [LinearOrder β] (f : α → β) (a b : α) (l : List α) :
    (a :: b :: l).argmin f = ((if f b < f a then b else a) :: l).argmin f := by
  by_cases h : f b < f a
  · simp [List.argmin, List.argAux, h]
  · simp [List.argmin, List.argAux, h]

theorem argmin_cons_of_le {α β : Type*} [LinearOrder β] {f : α → β} {a : α} {l : List α}
    (h : ∀ b, f a ≤ f b) : (a :: l).argmin f = some a := by
  rw [List.argmin_cons]
  cases l.argmin f with
  | none => rfl
  | some b => simp [(h b).not_gt]

/-- A key that no table uses ends the loop. -/
theorem argmin_cons_unused {keys : List Nat} (h : (t.used k).card = 0) :
    (k :: keys).argmin (fun k => (t.used k).card) = some k :=
  argmin_cons_of_le fun _ => h.le.trans (Nat.zero_le _)

/-- The loop keeps the first of the keys that are used least. -/
theorem leastUsed_some (keys : List Nat) (k : Nat) :
    t.leastUsed keys (some (k, (t.used k).card)) =
      (k :: t.unlocked keys).argmin fun k => (t.used k).card := by
  induction keys generalizing k with
  | nil => rfl
  | cons j keys ih =>
      by_cases hlocked : (t.locked j).Nonempty
      · rw [unlocked_cons_of_locked hlocked, ← ih]
        simp [Table.leastUsed, hlocked]
      · rw [unlocked_cons_of_not_locked hlocked, argmin_cons_cons]
        by_cases hless : (t.used j).card < (t.used k).card
        · by_cases hzero : (t.used j).card = 0
          · rw [if_pos hless, argmin_cons_unused hzero, Table.leastUsed, if_neg hlocked,
              if_pos (by simpa using hless), if_pos hzero]
          · rw [if_pos hless, ← ih]
            simp [Table.leastUsed, hlocked, hless, hzero]
        · rw [if_neg hless, ← ih]
          simp [Table.leastUsed, hlocked, hless]

/-- The victim is the first of the keys that no table locks and the fewest tables use. -/
theorem leastUsed_eq (keys : List Nat) :
    t.leastUsed keys none = (t.unlocked keys).argmin fun k => (t.used k).card := by
  induction keys with
  | nil => rfl
  | cons k keys ih =>
      by_cases hlocked : (t.locked k).Nonempty
      · rw [unlocked_cons_of_locked hlocked, ← ih]
        simp [Table.leastUsed, hlocked]
      · rw [unlocked_cons_of_not_locked hlocked]
        by_cases hzero : (t.used k).card = 0
        · rw [argmin_cons_unused hzero]
          simp [Table.leastUsed, hlocked, hzero]
        · rw [← leastUsed_some]
          simp [Table.leastUsed, hlocked, hzero]

theorem argmin_filter_eq_some {α β : Type*} [LinearOrder β] {f : α → β} {p : α → Bool}
    {l : List α} {m : α} (h : (l.filter p).argmin f = some m) :
    ∃ pre post, l = pre ++ m :: post ∧ p m ∧ (∀ a ∈ pre, p a → f m < f a) ∧
      ∀ a ∈ post, p a → f m ≤ f a := by
  induction l generalizing m with
  | nil => cases h
  | cons a l ih =>
      by_cases ha : p a
      · rw [List.filter_cons_of_pos ha, List.argmin_cons] at h
        cases hc : (l.filter p).argmin f with
        | none =>
            obtain rfl : a = m := by simpa [hc] using h
            rw [List.argmin_eq_none, List.filter_eq_nil_iff] at hc
            exact ⟨[], l, rfl, ha, by simp, fun b hb hpb => absurd hpb (hc b hb)⟩
        | some c =>
            obtain ⟨pre, post, hl, hpc, hpre, hpost⟩ := ih hc
            simp only [hc] at h
            split at h
            next hlt =>
              obtain rfl : c = m := by simpa using h
              refine ⟨a :: pre, post, by simp [hl], hpc, ?_, hpost⟩
              simpa [hlt] using hpre
            next hge =>
              obtain rfl : a = m := by simpa using h
              refine ⟨[], l, rfl, ha, by simp, fun b hb hpb => ?_⟩
              exact (not_lt.mp hge).trans (List.le_of_mem_argmin (by simpa using ⟨hb, hpb⟩) hc)
      · rw [List.filter_cons_of_neg ha] at h
        obtain ⟨pre, post, hl, hpm, hpre, hpost⟩ := ih h
        refine ⟨a :: pre, post, by simp [hl], hpm, ?_, hpost⟩
        simpa [ha] using hpre

/-- `k` is on the list and no table locks it; of the other keys that no table locks, the older
ones are used by more tables and the younger ones by at least as many. -/
def Table.Oldest (t : Table σ) (k : Nat) : Prop :=
  ∃ pre post, t.keys = pre ++ k :: post ∧ t.locked k = ∅ ∧
    (∀ j ∈ pre, t.locked j = ∅ → (t.used k).card < (t.used j).card) ∧
      ∀ j ∈ post, t.locked j = ∅ → (t.used k).card ≤ (t.used j).card

theorem oldest_of_leastUsed (h : t.leastUsed t.keys none = some k) : t.Oldest k := by
  rw [leastUsed_eq, Table.unlocked] at h
  obtain ⟨pre, post, hkeys, hk, hpre, hpost⟩ := argmin_filter_eq_some h
  refine ⟨pre, post, hkeys, by simpa using hk, ?_, ?_⟩
  · simpa using hpre
  · simpa using hpost

theorem Table.Oldest.listed (h : t.Oldest k) : k ∈ t.keys := by
  obtain ⟨pre, post, hkeys, -⟩ := h
  simp [hkeys]

theorem locked_of_leastUsed (h : t.leastUsed t.keys none = none) :
    ∀ k ∈ t.keys, t.locked k ≠ ∅ := by
  rw [leastUsed_eq, List.argmin_eq_none, Table.unlocked, List.filter_eq_nil_iff] at h
  simpa using h

/-! ### Calls of the callbacks -/

/-- `t'` is reached from `t` in callbacks that leave the list of keys alone. -/
structure Table.During (t : Table σ) (victim : Nat) (t' : Table σ) : Prop where
  mem : t'.mem = t.mem
  keys : t'.keys = t.keys
  lladdr : t'.lladdr = t.lladdr
  tables : t'.tables = t.tables
  used : t'.used victim ⊆ t.used victim
  listedUsed : Listed t'.used t.keys
  listedLocked : Listed t'.locked t.keys

theorem Table.Keyed.during (h : t.Keyed) (victim : Nat) : t.During victim t where
  mem := rfl
  keys := rfl
  lladdr := rfl
  tables := rfl
  used := fun _ => id
  listedUsed := h.used
  listedLocked := h.locked

theorem setBit_erase_subset {bitmap : Nat → Finset Nat} {item : Option Nat} :
    setBit bitmap table item false k ⊆ bitmap k := by
  by_cases h : item = some k
  · rw [h, setBit_self]
    exact Finset.erase_subset table (bitmap k)
  · rw [setBit_of_ne h]

variable {victim : Nat}

/-- A call of a callback keeps the list of keys, and takes a table from the victim by removing
the victim from that table only. -/
theorem Call.Quiet.run {c : Call σ} (hquiet : c.Quiet t (some victim))
    (h : t.During victim t') :
    t.During victim (c.run t') ∧
      ∀ i ∈ t'.used victim, i ∉ (c.run t').used victim → c = .remove i (some victim) := by
  cases c with
  | remove table item =>
      refine ⟨{ h with
        used := setBit_erase_subset.trans h.used
        listedUsed := h.listedUsed.setBit hquiet table false
        listedLocked := h.listedLocked.setBit hquiet table false }, fun i hi hgone => ?_⟩
      by_cases hitem : item = some victim
      · subst hitem
        simp only [Call.run, Table.remove, setBit_self] at hgone
        obtain rfl : i = table := by simpa [hi] using hgone
        rfl
      · simp only [Call.run, Table.remove, setBit_of_ne hitem] at hgone
        exact absurd hi hgone
  | lock table item =>
      exact ⟨{ h with listedLocked := h.listedLocked.setBit hquiet table true },
        fun i hi hgone => absurd hi hgone⟩
  | unlock table item =>
      exact ⟨{ h with listedLocked := h.listedLocked.setBit hquiet table false },
        fun i hi hgone => absurd hi hgone⟩
  | data f => exact ⟨{ h with }, fun i hi hgone => absurd hi hgone⟩
  | add table lladdr callbacks =>
      obtain ⟨k, hk, hne⟩ := hquiet
      have hindex : t'.indexFromLladdr lladdr = some k := by
        rw [← hk, Table.indexFromLladdr, Table.indexFromLladdr, h.keys, h.lladdr]
      have hrun : (Call.add table lladdr callbacks).run t' = t'.use table k := by
        simp [Call.run, Table.addLladdr, hindex]
      have hused : (t'.use table k).used victim = t'.used victim := setBit_of_ne hne
      rw [hrun]
      refine ⟨{ h with
        used := hused.symm ▸ h.used
        listedUsed := h.listedUsed.setBit (by simpa using mem_of_indexFromLladdr hk) table true },
        fun i hi hgone => absurd hi (hused ▸ hgone)⟩

theorem runAll_quiet {cs : List (Call σ)} (hquiet : ∀ c ∈ cs, c.Quiet t (some victim))
    (h : t.During victim t') :
    t.During victim (Call.runAll cs t') ∧
      ∀ i ∈ t'.used victim, i ∉ (Call.runAll cs t').used victim →
        .remove i (some victim) ∈ cs := by
  induction cs generalizing t' with
  | nil => exact ⟨h, fun i hi hgone => absurd hi hgone⟩
  | cons c cs ih =>
      obtain ⟨hduring, hc⟩ := (hquiet c List.mem_cons_self).run h
      obtain ⟨hduring', hcs⟩ := ih (fun c hc => hquiet c (List.mem_cons_of_mem _ hc)) hduring
      refine ⟨hduring', fun i hi hgone => ?_⟩
      by_cases hmid : i ∈ (c.run t').used victim
      · exact List.mem_cons_of_mem _ (hcs i hmid hgone)
      · rw [hc i hi hmid]
        exact List.mem_cons_self

/-- The callbacks that are called are those of the tables that use the victim, each once and in
order, unless a callback has removed the victim from the table before. -/
structure Table.Calls (t : Table σ) (victim : Nat) (callbacks : List (List (Call σ)))
    (called : List Nat) : Prop where
  once : called.Nodup
  uses : ∀ i ∈ called, t.tables[i]? = some true ∧ i ∈ t.used victim
  every : ∀ i, t.tables[i]? = some true → i ∈ t.used victim →
    i ∈ called ∨ ∃ cs ∈ callbacks, Call.remove i (some victim) ∈ cs

theorem mem_getD_nil {α : Type} {css : List (List α)} {c : α} (h : c ∈ css.getD i []) :
    ∃ cs ∈ css, c ∈ cs := by
  rw [List.getD_eq_getElem?_getD] at h
  cases hcs : css[i]? with
  | none => simp [hcs] at h
  | some cs => exact ⟨cs, List.mem_of_getElem? hcs, by simpa [hcs] using h⟩

/-- One round of the loop over the tables after another. -/
theorem callCallbacks_spec (hquiet : ∀ cs ∈ callbacks, ∀ c ∈ cs, c.Quiet t (some victim))
    (is : List Nat) (h : t.During victim t') :
    t.During victim (Table.callCallbacks (callback callbacks) victim is t').value ∧
      (Table.callCallbacks (callback callbacks) victim is t').entries.Sublist is ∧
      (∀ i ∈ (Table.callCallbacks (callback callbacks) victim is t').entries,
        t.tables[i]? = some true ∧ i ∈ t.used victim) ∧
      ∀ i ∈ is, t.tables[i]? = some true → i ∈ t'.used victim →
        i ∈ (Table.callCallbacks (callback callbacks) victim is t').entries ∨
          ∃ cs ∈ callbacks, Call.remove i (some victim) ∈ cs := by
  induction is generalizing t' with
  | nil => exact ⟨h, by simp [Table.callCallbacks], by simp [Table.callCallbacks], by simp⟩
  | cons j is ih =>
      by_cases hcall : t'.tables[j]? = some true ∧ j ∈ t'.used victim
      · have hquietj : ∀ c ∈ callbacks.getD j [], c.Quiet t (some victim) := by
          intro c hc
          obtain ⟨cs, hcs, hmem⟩ := mem_getD_nil hc
          exact hquiet cs hcs c hmem
        obtain ⟨hduring, hgone⟩ := runAll_quiet hquietj h
        obtain ⟨hvalue, hsub, huses, hevery⟩ := ih hduring
        simp only [Table.callCallbacks, if_pos hcall, callback_eq, Log.value_bind,
          Log.entries_bind, Log.entries_entry, List.singleton_append]
        refine ⟨hvalue, hsub.cons_cons j, ?_, ?_⟩
        · intro i hi
          rcases List.mem_cons.mp hi with rfl | hi
          · exact ⟨h.tables ▸ hcall.1, h.used hcall.2⟩
          · exact huses i hi
        · intro i hi htable hused
          rcases List.mem_cons.mp hi with rfl | hi
          · exact .inl List.mem_cons_self
          · by_cases hstill : i ∈ (Call.runAll (callbacks.getD j []) t').used victim
            · exact (hevery i hi htable hstill).imp_left (List.mem_cons_of_mem j)
            · exact .inr (mem_getD_nil (hgone i hused hstill))
      · obtain ⟨hvalue, hsub, huses, hevery⟩ := ih h
        simp only [Table.callCallbacks, if_neg hcall]
        refine ⟨hvalue, hsub.cons j, huses, ?_⟩
        intro i hi htable hused
        rcases List.mem_cons.mp hi with rfl | hi
        · exact absurd ⟨h.tables.symm ▸ htable, hused⟩ hcall
        · exact hevery i hi htable hused

theorem calls_callCallbacks (h : t.Keyed)
    (hquiet : ∀ cs ∈ callbacks, ∀ c ∈ cs, c.Quiet t (some victim)) :
    t.Calls victim callbacks
      (Table.callCallbacks (callback callbacks) victim (List.range maxNumTables) t).entries := by
  obtain ⟨-, hsub, huses, hevery⟩ :=
    callCallbacks_spec hquiet (List.range maxNumTables) (h.during victim)
  refine ⟨hsub.nodup List.nodup_range, huses, fun i htable hused => hevery i ?_ htable hused⟩
  obtain ⟨hlt, -⟩ := List.getElem?_eq_some_iff.mp htable
  exact List.mem_range.mpr (hlt.trans_le h.registered)

/-! ### Addition -/

/-- What an addition to a full list does: with every key locked it fails and changes nothing, and
else the oldest of the least used keys moves to the end of the list, under the new address and
used by the new table only, behind the calls of the callbacks. -/
inductive Table.Evicts (t : Table σ) (table : Nat) (lladdr : Option Rimeaddr)
    (callbacks : List (List (Call σ))) : List Nat → Option Nat → Table σ → Prop
  | refused (hlocked : ∀ k ∈ t.keys, t.locked k ≠ ∅) :
    t.Evicts table lladdr callbacks [] none t
  | replaced {victim : Nat} {called : List Nat} {t' : Table σ} (holdest : t.Oldest victim)
    (hcalls : t.Calls victim callbacks called)
    (hkeys : t'.keys = t.keys.erase victim ++ [victim])
    (hlladdr : t'.lladdr = Function.update t.lladdr victim (lladdr.getD .null))
    (hused : t'.used victim = {table}) :
    t.Evicts table lladdr callbacks called (some victim) t'

theorem evicts_addLladdr (h : t.Keyed) (hquiet : Quiet t callbacks)
    (hindex : t.indexFromLladdr lladdr = none) (hfull : t.mem.alloc = none) :
    t.Evicts table lladdr callbacks (t.addLladdr (callback callbacks) table lladdr).entries
      (t.addLladdr (callback callbacks) table lladdr).value.1
      (t.addLladdr (callback callbacks) table lladdr).value.2 := by
  unfold Quiet at hquiet
  cases hvictim : t.leastUsed t.keys none with
  | none =>
      have hadd : t.addLladdr (callback callbacks) table lladdr = pure (none, t) := by
        simp only [Table.addLladdr, hindex, Table.allocate, hfull, hvictim]
        rfl
      rw [hadd]
      exact .refused (locked_of_leastUsed hvictim)
  | some victim =>
      rw [hvictim] at hquiet
      obtain ⟨hduring, -⟩ :=
        callCallbacks_spec hquiet (List.range maxNumTables) (h.during victim)
      have hnodup : t.keys.Nodup := h.holds.nodup
      simp only [Table.addLladdr, hindex, Table.allocate, hfull, hvictim, Log.value_bind,
        Log.entries_bind, Log.value_pure, Log.entries_pure, List.append_nil]
      refine .replaced (oldest_of_leastUsed hvictim) (calls_callCallbacks h hquiet) ?_ ?_ ?_
      · simp [Table.use, Table.addKey, hduring.keys, hnodup.not_mem_erase]
      · simp [Table.use, Table.addKey, hduring.lladdr]
      · simp [Table.use, Table.addKey, setBit_self]

theorem Listed.mono {bitmap : Nat → Finset Nat} {keys keys' : List Nat} (h : Listed bitmap keys)
    (hsub : keys ⊆ keys') : Listed bitmap keys' :=
  fun k hk => hsub (h k hk)

/-- A key that is on the list no more, or has never been, is put at its end under an address that
no other key has. -/
theorem keyed_addKey (hholds : t.mem.Holds (k :: t.keys.erase k))
    (hdistinct : ∀ i ∈ t.keys.erase k, ∀ j ∈ t.keys.erase k, t.lladdr i = t.lladdr j → i = j)
    (hfresh : ∀ j ∈ t.keys.erase k, t.lladdr j ≠ lladdr.getD .null)
    (hused : Listed t.used (k :: t.keys.erase k))
    (hlocked : Listed t.locked (k :: t.keys.erase k))
    (hregistered : t.tables.length ≤ maxNumTables) : (t.addKey k lladdr).Keyed where
  holds := hholds.perm (List.perm_append_singleton k (t.keys.erase k)).symm
  distinct := by
    have hold : ∀ j ∈ t.keys.erase k, j ≠ k := by
      rintro j hj rfl
      exact (List.nodup_cons.mp hholds.nodup).1 hj
    intro i hi j hj hij
    simp only [Table.addKey, List.mem_append, List.mem_singleton] at hi hj hij
    rcases hi with hi | rfl
    · rw [Function.update_of_ne (hold i hi)] at hij
      rcases hj with hj | rfl
      · rw [Function.update_of_ne (hold j hj)] at hij
        exact hdistinct i hi j hj hij
      · rw [Function.update_self] at hij
        exact absurd hij (hfresh i hi)
    · rw [Function.update_self] at hij
      rcases hj with hj | rfl
      · rw [Function.update_of_ne (hold j hj)] at hij
        exact absurd hij.symm (hfresh j hj)
      · rfl
  used := hused.mono fun j hj => by simpa [Table.addKey, or_comm] using hj
  locked := hlocked.mono fun j hj => by simpa [Table.addKey, or_comm] using hj
  registered := hregistered

theorem keyed_addLladdr (h : t.Keyed) (hquiet : Quiet t callbacks) :
    (t.addLladdr (callback callbacks) table lladdr).value.2.Keyed := by
  unfold Quiet at hquiet
  cases hindex : t.indexFromLladdr lladdr with
  | some k =>
      simp only [Table.addLladdr, hindex]
      exact h.use (mem_of_indexFromLladdr hindex) table
  | none =>
      have hfresh : ∀ k ∈ t.keys, t.lladdr k ≠ lladdr.getD .null :=
        fun k hk => ne_of_indexFromLladdr hindex hk
      cases hfull : t.mem.alloc with
      | some kmem =>
          obtain ⟨k, mem⟩ := kmem
          have hk : k ∉ t.keys := fun hk => Memb.not_mem_of_alloc hfull (h.holds.mem_iff.mpr hk)
          have hkeyed : (Table.addKey { t with mem := mem } k lladdr).Keyed := by
            apply keyed_addKey <;> simp only [List.erase_of_not_mem hk]
            · exact h.holds.alloc hfull
            · exact h.distinct
            · exact hfresh
            · exact h.used.mono (List.subset_cons_self k t.keys)
            · exact h.locked.mono (List.subset_cons_self k t.keys)
            · exact h.registered
          simp only [Table.addLladdr, hindex, Table.allocate, hfull]
          exact hkeyed.use (by simp [Table.addKey]) table
      | none =>
          cases hvictim : t.leastUsed t.keys none with
          | none =>
              simp only [Table.addLladdr, hindex, Table.allocate, hfull, hvictim]
              exact h
          | some victim =>
              rw [hvictim] at hquiet
              obtain ⟨hduring, -⟩ :=
                callCallbacks_spec hquiet (List.range maxNumTables) (h.during victim)
              have hperm := List.perm_cons_erase (oldest_of_leastUsed hvictim).listed
              have hnodup : t.keys.Nodup := h.holds.nodup
              simp only [Table.addLladdr, hindex, Table.allocate, hfull, hvictim, Log.value_bind,
                Log.value_pure]
              refine Table.Keyed.use (keyed_addKey ?_ ?_ ?_ ?_ ?_ ?_) (by simp [Table.addKey]) table
                <;> simp only [hduring.mem, hduring.keys, hduring.lladdr, hduring.tables,
                  List.erase_of_not_mem hnodup.not_mem_erase]
              · exact h.holds.perm hperm
              · intro i hi j hj
                exact h.distinct i (List.mem_of_mem_erase hi) j (List.mem_of_mem_erase hj)
              · intro j hj
                exact hfresh j (List.mem_of_mem_erase hj)
              · refine Listed.mono ?_ hperm.subset
                intro j hj
                by_cases hjv : j = victim
                · subst hjv; simp at hj
                · rw [Function.update_of_ne hjv] at hj
                  exact hduring.listedUsed j hj
              · exact hduring.listedLocked.mono hperm.subset
              · exact h.registered

theorem Event.Proper.keyed {e : Event σ} (hproper : e.Proper t) (h : t.Keyed) :
    (e.step t).Keyed := by
  cases e with
  | register callback => exact h.register callback
  | update k l => exact h.update hproper.2
  | call c =>
      cases c with
      | remove table item => exact h.remove hproper table
      | lock table item => exact h.lock hproper table
      | unlock table item => exact h.unlock hproper table
      | data f => exact { h with }
      | add table lladdr callbacks => exact keyed_addLladdr h hproper

theorem Proper.keyed {es : List (Event σ)} (hproper : Proper t es) (h : t.Keyed) :
    (run t es).Keyed := by
  induction es generalizing t with
  | nil => exact h
  | cons e es ih => exact ih hproper.2 (hproper.1.keyed h)

/-! ### Enumeration -/

theorem next_append (h : t.keys.Nodup) {pre post : List Nat} (hkeys : t.keys = pre ++ k :: post)
    (table : Nat) : t.next table k = post.find? fun k => table ∈ t.used k := by
  rw [Table.next, hkeys, behind_append (hkeys ▸ h)]

theorem head_eq (h : t.keys.Nodup) :
    t.head table = t.keys.find? fun k => table ∈ t.used k := by
  cases hkeys : t.keys with
  | nil => simp [Table.head, hkeys]
  | cons k keys =>
      have hnext := next_append h (hkeys.trans (List.nil_append _).symm) table
      by_cases hused : table ∈ t.used k
      · simp [Table.head, hkeys, hused]
      · simp [Table.head, hkeys, hused, hnext]

theorem links_next (h : t.keys.Nodup) :
    Links (t.next table) (t.keys.filter fun k => table ∈ t.used k) := by
  intro pre k post hfilter
  have hk : k ∈ t.keys ∧ table ∈ t.used k := by
    have hmem : k ∈ t.keys.filter fun k => table ∈ t.used k := by simp [hfilter]
    simpa using hmem
  obtain ⟨pre', post', hkeys⟩ := List.append_of_mem hk.1
  have hpost : post'.filter (fun k => table ∈ t.used k) = post := by
    apply eq_of_append_cons (pre'.filter fun k => table ∈ t.used k) _ pre _ k
    · have hnd := h.filter fun k => decide (table ∈ t.used k)
      rw [hkeys] at hnd
      simpa [hk.2] using hnd
    · rw [← hfilter, hkeys]
      simp [hk.2]
  rw [next_append h hkeys table, ← hpost, List.head?_filter]

/-- From `nbr_table_head` on, a loop meets each item that the table uses once and ends. -/
theorem follow_head (h : t.keys.Nodup) {n : Nat} (hn : t.keys.length ≤ n) :
    follow (t.next table) n (t.head table) = t.keys.filter fun k => table ∈ t.used k := by
  rw [head_eq h, ← List.head?_filter]
  exact (links_next h).follow_head ((List.length_filter_le _ _).trans hn)

/-! ### Runs -/

/-- The list of keys is sound, an addition to a full list evicts as it should whatever the
callbacks do that leave the list of keys alone, and a loop over a table meets each item that the
table uses once and ends. -/
structure Table.Sound (t : Table σ) : Prop where
  keyed : t.Keyed
  evicts : ∀ table lladdr callbacks, Quiet t callbacks → t.indexFromLladdr lladdr = none →
    t.mem.alloc = none →
      t.Evicts table lladdr callbacks (t.addLladdr (callback callbacks) table lladdr).entries
        (t.addLladdr (callback callbacks) table lladdr).value.1
        (t.addLladdr (callback callbacks) table lladdr).value.2
  enumerates : ∀ table n, t.keys.length ≤ n →
    follow (t.next table) n (t.head table) = t.keys.filter fun k => table ∈ t.used k

theorem Table.Keyed.sound (h : t.Keyed) : t.Sound where
  keyed := h
  evicts _ _ _ hquiet hindex hfull := evicts_addLladdr h hquiet hindex hfull
  enumerates _ _ hn := follow_head h.holds.nodup hn

/-- The address whose first byte is `b`. -/
def station (b : UInt8) : Rimeaddr := Rimeaddr.null.copyLladdr #v[b, 0, 0, 0, 0, 0]

end Calipso.Nbr
