import Calipso.Nbr.Eviction
import Calipso.Uip.Options

/-!
# Walks over the options

The offset of an option is a byte, and no option is checked against the end of the message
before it is used. `conforms_iff_fits` says which messages are handled as they should be all the
same.
-/

namespace Calipso.Uip

open Net Sicslowpan Wire

variable {kind : Kind} {e : Env} {msg : Message} {d : Ds6} {n : Nat}

/-! ### What is asked of a handler -/

/-- The loop meets an option at the offset `x`. -/
def Kind.Meets (kind : Kind) (msg : Message) (x : UInt8) : Prop :=
  Reached msg.nextOpt msg.inside (kind.bad msg) kind.start x ∧ msg.inside x = true

/-- The loop takes the options at the offsets `xs` and is left at the offset `last`, or behind
the options. -/
def Kind.Path (kind : Kind) (msg : Message) (xs : List UInt8) (last : Option UInt8) : Prop :=
  ∃ n, visit msg.nextOpt msg.inside (kind.bad msg) n kind.start = some (xs, last)

/-- The option has no length, or passes the end of the message. -/
def Message.Invalid (msg : Message) (x : UInt8) : Prop :=
  msg.optLen x = 0 ∨ msg.uipLen.toNat < msg.opt x + 8 * (msg.optLen x).toNat

/-- The state of the loop behind the options at the offsets `xs`. -/
def Kind.after (kind : Kind) (e : Env) (msg : Message) (d : Ds6) (xs : List UInt8) : Loop :=
  xs.foldl (fun l x => kind.option e msg x l) ⟨kind.enter e msg d, none, []⟩

/-- The handler ends and reads of the options only what is in the packet. Where it meets an
invalid option, the message is discarded at an option, and none before it has changed an
entry. -/
structure Kind.Conforms (kind : Kind) (e : Env) (msg : Message) (d : Ds6) : Prop where
  ends : ∃ n, kind.input n e msg d ≠ none
  reads : ∀ n o, kind.input n e msg d = some o → ∀ r ∈ o.reads, r ≤ msg.uipLen.toNat
  atomic : kind.rejected msg = false → (∃ x, kind.Meets msg x ∧ msg.Invalid x) →
    ∃ xs y, kind.Path msg xs (some y) ∧
      (∀ ys, ys <+: xs → (kind.after e msg d ys).ds6.toEntries = d.toEntries) ∧
      ∀ n o, kind.input n e msg d = some o →
        o.reply = .discard ∧ o.ds6.toEntries = d.toEntries

/-! ### Messages that are handled so -/

/-- The sender is a neighbor. -/
def Message.known (msg : Message) (t : Neighbors) : Bool := (nbrLookup t msg.srcipaddr).isSome

/-- The sender can be added as a neighbor with the address of the option at `x`. -/
def Message.adds (e : Env) (msg : Message) (t : Neighbors) (x : UInt8) : Bool :=
  (ds6NbrAdd e.callback e.now t msg.srcipaddr (msg.optLlao x) 0 .stale).1.isSome

/-- The addresses in the source link-layer address options are in the packet: while the sender
is not known, two bytes more are read. -/
def Message.SllaosWithin (e : Env) (msg : Message) (t : Neighbors) : Bool → List UInt8 → Prop
  | _, [] => True
  | known, x :: xs =>
      (msg.optType x = optSllao →
        msg.opt x + (if known then 8 else 10) ≤ msg.uipLen.toNat) ∧
      msg.SllaosWithin e t (known || (msg.optType x = optSllao && msg.adds e t x)) xs

/-- The MTU and what is read of a prefix are in the packet. -/
def Message.FieldsWithin (msg : Message) (x : UInt8) : Prop :=
  (msg.optType x = optMtu → msg.opt x + 8 ≤ msg.uipLen.toNat) ∧
    (msg.optType x = optPrefixInfo →
      ∀ r ∈ prefixReads (msg.optPrefix x), msg.opt x + r ≤ msg.uipLen.toNat)

/-- What the options that are taken are read for is in the packet. -/
def Kind.PayloadsWithin (e : Env) (msg : Message) (d : Ds6) : Kind → List UInt8 → Prop
  | .ns, xs => msg.SllaosWithin e d.neighbors (msg.known d.neighbors) xs
  | .na, _ => True
  | .rs, _ => True
  | .ra, xs => msg.SllaosWithin e d.neighbors (msg.known d.neighbors) xs ∧
      ∀ x ∈ xs, msg.FieldsWithin x

/-- The last option of the type among the options at `xs`. -/
def Message.lastOption (msg : Message) (type : UInt8) (xs : List UInt8) : Option UInt8 :=
  (xs.filter fun x => msg.optType x = type).getLast?

/-- An advertisement of a neighbor that is known needs the target link-layer address. -/
def Message.naLlaoWithin (msg : Message) (d : Ds6) (x : UInt8) : Prop :=
  addrLookup d.addrs msg.tgtipaddr = none → (nbrLookup d.neighbors msg.tgtipaddr).isSome →
    msg.opt x + 8 ≤ msg.uipLen.toNat

/-- How far the option at `x` is read in the solicitation of a router: two bytes more unless
the sender is known by its address. -/
def Message.rsExtent (msg : Message) (d : Ds6) (x : UInt8) : Nat :=
  match nbrLookup d.neighbors msg.srcipaddr with
  | none => 10
  | some k => if (msg.optLlao x).lladdr ≠ (nbrGet d.neighbors k).lladdr then 10 else 8

/-- A solicitation of a router needs the source link-layer address. -/
def Message.rsLlaoWithin (msg : Message) (d : Ds6) (x : UInt8) : Prop :=
  isAddrUnspecified msg.srcipaddr = false →
    msg.opt x + msg.rsExtent d x ≤ msg.uipLen.toNat

/-- What is read of an option behind the loop is in the packet. -/
def Kind.LlaoWithin (msg : Message) (d : Ds6) : Kind → List UInt8 → Prop
  | .ns, _ => True
  | .na, xs => ∀ x ∈ msg.lastOption optTllao xs, msg.naLlaoWithin d x
  | .rs, xs => ∀ x ∈ msg.lastOption optSllao xs, msg.rsLlaoWithin d x
  | .ra, _ => True

/-- The option at `x`, taken first, changes an entry. -/
def Kind.Acts (kind : Kind) (e : Env) (msg : Message) (d : Ds6) (x : UInt8) : Prop :=
  (kind.option e msg x ⟨kind.enter e msg d, none, []⟩).ds6.toEntries ≠ d.toEntries

/-- The offsets come to an end, and no option is cut off where it is read. Where an option is
invalid, the loop meets one at which it is left, and none before it acts. -/
structure Kind.Fits (kind : Kind) (e : Env) (msg : Message) (d : Ds6) : Prop where
  stops : ∃ x, Reached msg.nextOpt msg.inside (kind.bad msg) kind.start x ∧
    goesOn msg.inside (kind.bad msg) x = false
  header : ∀ x, kind.Meets msg x → msg.opt x + 2 ≤ msg.uipLen.toNat
  payload : ∀ xs last, kind.Path msg xs last → kind.PayloadsWithin e msg d xs
  behind : ∀ xs, kind.Path msg xs none → kind.LlaoWithin msg d xs
  valid : (∃ x, kind.Meets msg x ∧ msg.Invalid x) →
    (∃ y, kind.Meets msg y ∧ kind.bad msg y = true) ∧
      ∀ y, kind.Meets msg y → kind.bad msg y = false → ¬ kind.Acts e msg d y

/-! ### The path of the loop -/

variable {xs : List UInt8} {last : Option UInt8}

theorem Kind.Path.unique {ys : List UInt8} {last' : Option UInt8} (h : kind.Path msg xs last)
    (h' : kind.Path msg ys last') : xs = ys ∧ last = last' := by
  obtain ⟨n, hn⟩ := h
  obtain ⟨m, hm⟩ := h'
  exact Prod.mk.inj (visit_unique hn hm)

theorem Kind.exists_path_iff : (∃ xs last, kind.Path msg xs last) ↔
    ∃ x, Reached msg.nextOpt msg.inside (kind.bad msg) kind.start x ∧
      goesOn msg.inside (kind.bad msg) x = false := by
  rw [← exists_visit_iff_reached]
  constructor
  · rintro ⟨xs, last, n, hn⟩
    exact ⟨n, (xs, last), hn⟩
  · rintro ⟨n, ⟨xs, last⟩, hn⟩
    exact ⟨xs, last, n, hn⟩

/-- The loop meets the options that it takes and the one at which it is left. -/
theorem Kind.Path.forall_iff {P : UInt8 → Prop} (h : kind.Path msg xs last) :
    (∀ x, kind.Meets msg x → P x) ↔ (∀ x ∈ xs, P x) ∧ ∀ x ∈ last, P x := by
  obtain ⟨n, hn⟩ := h
  have hall := visit_all_iff hn (P := P)
  simp only [List.mem_append, or_imp, forall_and, Option.mem_toList] at hall
  exact Iff.trans ⟨fun hP x hx hin => hP x ⟨hx, hin⟩, fun hP x hx => hP x hx.1 hx.2⟩ hall.symm

theorem Kind.Path.bad_eq (h : kind.Path msg xs last) :
    (∀ x ∈ xs, kind.bad msg x = false) ∧ ∀ x ∈ last, kind.bad msg x = true := by
  obtain ⟨n, hn⟩ := h
  obtain ⟨hgoes, hlast⟩ := visit_spec hn
  refine ⟨fun x hx => ?_, fun x hx => (hlast x hx).2⟩
  have hboth := hgoes x hx
  simp only [goesOn, Bool.and_eq_true, Bool.not_eq_true'] at hboth
  exact hboth.2

/-- What becomes of the message behind the loop. -/
def Kind.outcome (kind : Kind) (e : Env) (msg : Message) (d : Ds6) (xs : List UInt8) :
    Option UInt8 → Outcome
  | some x =>
      ⟨(kind.after e msg d xs).ds6, .discard, (kind.after e msg d xs).reads ++ [msg.opt x + 2]⟩
  | none => kind.finish e msg (kind.after e msg d xs)

/-- With enough rounds the handler has the outcome of its path. -/
theorem Kind.input_eq_some_iff {o : Outcome} (hrejected : kind.rejected msg = false) :
    kind.input n e msg d = some o ↔ ∃ xs last,
      visit msg.nextOpt msg.inside (kind.bad msg) n kind.start = some (xs, last) ∧
        kind.outcome e msg d xs last = o := by
  rw [Kind.input, hrejected, if_neg Bool.false_ne_true, walk_eq_visit, Option.map_map,
    Option.map_eq_some_iff]
  constructor
  · rintro ⟨⟨xs, last⟩, hv, rfl⟩
    exact ⟨xs, last, hv, by cases last <;> rfl⟩
  · rintro ⟨xs, last, hv, rfl⟩
    exact ⟨(xs, last), hv, by cases last <;> rfl⟩

theorem Kind.Path.input (h : kind.Path msg xs last) (hrejected : kind.rejected msg = false) :
    (∃ n, kind.input n e msg d ≠ none) ∧
      ∀ n o, kind.input n e msg d = some o → o = kind.outcome e msg d xs last := by
  constructor
  · obtain ⟨n, hn⟩ := h
    have hsome := (input_eq_some_iff (e := e) (d := d) hrejected).mpr ⟨xs, last, hn, rfl⟩
    exact ⟨n, by rw [hsome]; exact Option.some_ne_none _⟩
  · intro n o ho
    obtain ⟨ys, last', hn, rfl⟩ := (input_eq_some_iff hrejected).mp ho
    obtain ⟨rfl, rfl⟩ := h.unique ⟨n, hn⟩
    rfl

theorem Kind.ends_iff (hrejected : kind.rejected msg = false) :
    (∃ n, kind.input n e msg d ≠ none) ↔ ∃ xs last, kind.Path msg xs last := by
  constructor
  · rintro ⟨n, hn⟩
    obtain ⟨o, ho⟩ := Option.ne_none_iff_exists'.mp hn
    obtain ⟨xs, last, hv, -⟩ := (input_eq_some_iff hrejected).mp ho
    exact ⟨xs, last, n, hv⟩
  · rintro ⟨xs, last, h⟩
    exact (h.input hrejected).1

/-! ### Entries -/

theorem llaoOption_ds6 (type : UInt8) (x : UInt8) (l : Loop) :
    (llaoOption type msg x l).ds6 = l.ds6 := by
  unfold llaoOption
  split <;> rfl

/-- What an option does to the entries depends on the entries only. -/
theorem Kind.option_entries {l l' : Loop} (x : UInt8)
    (h : l.ds6.toEntries = l'.ds6.toEntries) :
    (kind.option e msg x l).ds6.toEntries = (kind.option e msg x l').ds6.toEntries := by
  obtain ⟨⟨⟨t, a, p, r⟩, ni, nb⟩, ll, rd⟩ := l
  obtain ⟨⟨⟨t', a', p', r'⟩, ni', nb'⟩, ll', rd'⟩ := l'
  obtain ⟨rfl, rfl, rfl, rfl⟩ := Entries.mk.inj h
  cases kind with
  | ns =>
      simp only [Kind.option, nsOption]
      split
      · cases nbrLookup t msg.srcipaddr <;> rfl
      · rfl
  | na => simp only [Kind.option, naOption, llaoOption_ds6]
  | rs => simp only [Kind.option, rsOption, llaoOption_ds6]
  | ra =>
      simp only [Kind.option, raOption]
      split
      · cases nbrLookup t msg.srcipaddr <;> rfl
      · split
        · rfl
        · split <;> rfl

theorem Kind.enter_entries : (kind.enter e msg d).toEntries = d.toEntries := by
  cases kind <;> rfl

theorem Kind.acts_iff {l : Loop} (x : UInt8) (h : l.ds6.toEntries = d.toEntries) :
    kind.Acts e msg d x ↔ (kind.option e msg x l).ds6.toEntries ≠ d.toEntries := by
  have hfirst : l.ds6.toEntries =
      (Loop.mk (kind.enter e msg d) none []).ds6.toEntries := h.trans enter_entries.symm
  rw [Kind.Acts, option_entries x hfirst]

/-- No option changes an entry on the way when none would change one at first. -/
theorem Kind.foldl_entries_iff {l : Loop} (xs : List UInt8)
    (h : l.ds6.toEntries = d.toEntries) :
    (∀ ys, ys <+: xs →
        (ys.foldl (fun l x => kind.option e msg x l) l).ds6.toEntries = d.toEntries) ↔
      ∀ x ∈ xs, ¬ kind.Acts e msg d x := by
  induction xs generalizing l with
  | nil =>
      refine iff_of_true (fun ys hys => ?_) (List.forall_mem_nil _)
      rw [List.prefix_nil.mp hys]
      exact h
  | cons x xs ih =>
      rw [List.forall_mem_cons]
      constructor
      · intro hall
        have hx : (kind.option e msg x l).ds6.toEntries = d.toEntries :=
          hall [x] ⟨xs, rfl⟩
        refine ⟨fun hacts => (acts_iff x h).mp hacts hx, (ih hx).mp fun ys hys => ?_⟩
        exact hall (x :: ys) (List.prefix_cons_inj x |>.mpr hys)
      · rintro ⟨hx, hxs⟩ ys hys
        rw [acts_iff x h, not_not] at hx
        cases ys with
        | nil => exact h
        | cons y ys =>
            obtain ⟨rfl, hrest⟩ := List.cons_prefix_cons.mp hys
            exact (ih hx).mpr hxs ys hrest

theorem Kind.after_entries_iff (xs : List UInt8) :
    (∀ ys, ys <+: xs → (kind.after e msg d ys).ds6.toEntries = d.toEntries) ↔
      ∀ x ∈ xs, ¬ kind.Acts e msg d x :=
  foldl_entries_iff xs enter_entries

/-! ### The sender in the neighbor cache -/

section Sender

variable {t : Neighbors} {ipaddr : IpAddr} {lladdr : Rimeaddr} {isrouter : UInt8}
  {state : NbrState} {k : Nat}

theorem addLladdr_of_none {callback : Nat → Nat → Neighbors → Neighbors} {key : Option Rimeaddr}
    (h : (t.addLladdr callback ds6Neighbors key).value.1 = none) :
    (t.addLladdr callback ds6Neighbors key).value.2 = t := by
  unfold Nbr.Table.addLladdr at h ⊢
  cases hindex : t.indexFromLladdr key with
  | some k =>
      rw [hindex] at h
      cases h
  | none =>
      rw [hindex] at h
      simp only [Log.value_bind] at h ⊢
      unfold Nbr.Table.allocate at h ⊢
      cases halloc : t.mem.alloc with
      | some r =>
          rw [halloc] at h
          cases h
      | none =>
          rw [halloc] at h
          cases hleast : t.leastUsed t.keys none with
          | some k =>
              rw [hleast] at h
              cases h
          | none => rfl

theorem listed_addLladdr {callback : Nat → Nat → Neighbors → Neighbors} {key : Option Rimeaddr}
    (h : (t.addLladdr callback ds6Neighbors key).value.1 = some k) :
    k ∈ (t.addLladdr callback ds6Neighbors key).value.2.keys ∧
      ds6Neighbors ∈ (t.addLladdr callback ds6Neighbors key).value.2.used k := by
  unfold Nbr.Table.addLladdr at h ⊢
  cases hindex : t.indexFromLladdr key with
  | some i =>
      rw [hindex] at h
      obtain rfl : i = k := Option.some.inj h
      refine ⟨Nbr.mem_of_indexFromLladdr hindex, ?_⟩
      simp [Nbr.Table.use, Nbr.setBit_self]
  | none =>
      rw [hindex] at h
      simp only [Log.value_bind] at h ⊢
      generalize (t.allocate callback).value = r at h ⊢
      obtain ⟨_ | i, t'⟩ := r
      · cases h
      · obtain rfl : i = k := Option.some.inj h
        simp [Nbr.Table.use, Nbr.Table.addKey, Nbr.setBit_self]

theorem ds6NbrAdd_of_none
    (h : (ds6NbrAdd e.callback e.now t ipaddr lladdr isrouter state).1 = none) :
    (ds6NbrAdd e.callback e.now t ipaddr lladdr isrouter state).2 = t := by
  unfold ds6NbrAdd at h ⊢
  have hnone : (t.addLladdr e.callback ds6Neighbors (some lladdr)).value.1 = none → _ :=
    addLladdr_of_none
  generalize (t.addLladdr e.callback ds6Neighbors (some lladdr)).value = r at h hnone ⊢
  obtain ⟨_ | k, t'⟩ := r
  · exact hnone rfl
  · cases h

theorem isSome_nbrLookup_ds6NbrAdd
    (h : (ds6NbrAdd e.callback e.now t ipaddr lladdr isrouter state).1.isSome = true) :
    (nbrLookup (ds6NbrAdd e.callback e.now t ipaddr lladdr isrouter state).2 ipaddr).isSome =
      true := by
  unfold ds6NbrAdd at h ⊢
  have hlisted : ∀ k, (t.addLladdr e.callback ds6Neighbors (some lladdr)).value.1 = some k → _ :=
    fun k hk => listed_addLladdr hk
  generalize (t.addLladdr e.callback ds6Neighbors (some lladdr)).value = r at h hlisted ⊢
  obtain ⟨_ | k, t'⟩ := r
  · cases h
  · obtain ⟨hkey, hused⟩ := hlisted k rfl
    simp only [nbrLookup, List.find?_isSome]
    exact ⟨k, hkey, by simpa using hused⟩

/-- Whether a neighbor can be added is a matter of its link-layer address. -/
theorem ds6NbrAdd_fst (isrouter isrouter' : UInt8) :
    (ds6NbrAdd e.callback e.now t ipaddr lladdr isrouter state).1 =
      (ds6NbrAdd e.callback e.now t ipaddr lladdr isrouter' state).1 := by
  unfold ds6NbrAdd
  generalize (t.addLladdr e.callback ds6Neighbors (some lladdr)).value = r
  obtain ⟨_ | k, t'⟩ := r <;> rfl

/-- An entry keeps its place while its IP address stays. -/
theorem nbrLookup_nbrSet {n : Nbr} (h : n.ipaddr = (t.data k).ipaddr) :
    nbrLookup (nbrSet t k n) ipaddr = nbrLookup t ipaddr := by
  have hdata : ∀ j, ((nbrSet t k n).data j).ipaddr = (t.data j).ipaddr := by
    intro j
    simp only [nbrSet, Function.update_apply]
    split
    next heq =>
      rw [heq]
      exact h
    next => rfl
  simp only [nbrLookup, hdata]
  rfl

end Sender

/-! ### Reads -/

/-- What has been read in the loop is below `n`. -/
def Loop.Within (l : Loop) (n : Nat) : Prop := ∀ r ∈ l.reads, r ≤ n

/-- The loop knows the sender or not; while it does not, the neighbor cache is as it was. -/
structure Message.Sees (msg : Message) (t : Neighbors) (l : Loop) (known : Bool) : Prop where
  sender : msg.known l.ds6.neighbors = known
  same : known = false → l.ds6.neighbors = t

section Reads

variable {t : Neighbors} {l : Loop} {known : Bool} {x : UInt8} {n : Nat}

/-- What an option with the source link-layer address does to the neighbor cache: the sender is
added, or its entry is changed. -/
def Message.sllaoNeighbors (e : Env) (msg : Message) (isrouter : UInt8)
    (update : LlAddr → Nbr → Nbr) (x : UInt8) (t : Neighbors) : Neighbors :=
  match nbrLookup t msg.srcipaddr with
  | none => (ds6NbrAdd e.callback e.now t msg.srcipaddr (msg.optLlao x) isrouter .stale).2
  | some k => nbrSet t k (update (msg.optLlao x).lladdr (nbrGet t k))

theorem Message.Sees.sllao {l' : Loop} {isrouter : UInt8} {update : LlAddr → Nbr → Nbr}
    (h : msg.Sees t l known)
    (hupdate : ∀ a (n : Nbr), (update a n).ipaddr = n.ipaddr)
    (hl : l'.ds6.neighbors = msg.sllaoNeighbors e isrouter update x l.ds6.neighbors) :
    msg.Sees t l' (known || msg.adds e t x) := by
  unfold Message.sllaoNeighbors at hl
  cases hlookup : nbrLookup l.ds6.neighbors msg.srcipaddr with
  | some k =>
      have hknown : known = true := by
        rw [← h.sender, Message.known, hlookup]
        rfl
      rw [hlookup] at hl
      subst hknown
      refine ⟨?_, fun hno => absurd hno (by simp)⟩
      rw [Message.known, hl, nbrLookup_nbrSet (hupdate _ _), hlookup]
      rfl
  | none =>
      have hknown : known = false := by
        rw [← h.sender, Message.known, hlookup]
        rfl
      subst hknown
      have hsame := h.same rfl
      rw [hlookup, hsame] at hl
      rw [hsame] at hlookup
      have hadds : msg.adds e t x =
          (ds6NbrAdd e.callback e.now t msg.srcipaddr (msg.optLlao x) isrouter .stale).1.isSome :=
        congrArg Option.isSome (ds6NbrAdd_fst 0 isrouter)
      rw [Bool.false_or, hadds]
      cases hadd :
          (ds6NbrAdd e.callback e.now t msg.srcipaddr (msg.optLlao x) isrouter .stale).1 with
      | none =>
          have hback := ds6NbrAdd_of_none hadd
          rw [hback] at hl
          refine ⟨?_, fun _ => hl⟩
          rw [Message.known, hl, hlookup]
      | some k =>
          refine ⟨?_, fun hno => absurd hno (by simp)⟩
          rw [Message.known, hl]
          exact isSome_nbrLookup_ds6NbrAdd (by rw [hadd]; rfl)

theorem Message.Sees.of_same {l' : Loop} (h : msg.Sees t l known)
    (hl : l'.ds6.neighbors = l.ds6.neighbors) : msg.Sees t l' known := by
  refine ⟨?_, fun hno => hl.trans (h.same hno)⟩
  rw [hl, h.sender]

theorem ipaddr_nsUpdate (a : LlAddr) (n : Nbr) : (nsUpdate a n).ipaddr = n.ipaddr := by
  unfold nsUpdate
  split
  · rfl
  · split <;> rfl

theorem ipaddr_raUpdate (a : LlAddr) (n : Nbr) : (raUpdate a n).ipaddr = n.ipaddr := by
  simp only [raUpdate]
  split <;> split <;> rfl

theorem neighbors_nsOption (hsllao : msg.optType x = optSllao) :
    (nsOption e msg x l).ds6.neighbors =
      msg.sllaoNeighbors e 0 nsUpdate x l.ds6.neighbors := by
  cases hlookup : nbrLookup l.ds6.neighbors msg.srcipaddr <;>
    simp only [nsOption, Message.sllaoNeighbors, if_pos hsllao, hlookup]

theorem neighbors_raOption (hsllao : msg.optType x = optSllao) :
    (raOption e msg x l).ds6.neighbors =
      msg.sllaoNeighbors e 1 raUpdate x l.ds6.neighbors := by
  cases hlookup : nbrLookup l.ds6.neighbors msg.srcipaddr <;>
    simp only [raOption, Message.sllaoNeighbors, if_pos hsllao, hlookup]

theorem reads_nsOption (hsllao : msg.optType x = optSllao) :
    (nsOption e msg x l).reads = l.reads ++
      [msg.opt x + 2, msg.opt x + (if msg.known l.ds6.neighbors then 8 else 10)] := by
  unfold Message.known
  cases hlookup : nbrLookup l.ds6.neighbors msg.srcipaddr <;>
    simp [nsOption, if_pos hsllao, hlookup]

theorem reads_raOption (hsllao : msg.optType x = optSllao) :
    (raOption e msg x l).reads = l.reads ++
      [msg.opt x + 2, msg.opt x + (if msg.known l.ds6.neighbors then 8 else 10)] := by
  unfold Message.known
  cases hlookup : nbrLookup l.ds6.neighbors msg.srcipaddr <;>
    simp [raOption, if_pos hsllao, hlookup]

/-- What a loop with the source link-layer address does with an option: what it sees of the
sender, and what it reads. -/
structure Message.Step (e : Env) (msg : Message) (t : Neighbors) (fields : UInt8 → Prop)
    (option : UInt8 → Loop → Loop) : Prop where
  sees : ∀ x l known, msg.Sees t l known →
    msg.Sees t (option x l) (known || (msg.optType x = optSllao && msg.adds e t x))
  reads : ∀ x l known, msg.Sees t l known →
    ((option x l).Within msg.uipLen.toNat ↔ l.Within msg.uipLen.toNat ∧
      msg.opt x + 2 ≤ msg.uipLen.toNat ∧
      (msg.optType x = optSllao → msg.opt x + (if known then 8 else 10) ≤ msg.uipLen.toNat) ∧
      fields x)

theorem step_nsOption : msg.Step e t (fun _ => True) (nsOption e msg) where
  sees x l known h := by
    by_cases hsllao : msg.optType x = optSllao
    · simp only [hsllao, decide_true, Bool.true_and]
      exact h.sllao ipaddr_nsUpdate (neighbors_nsOption hsllao)
    · simp only [hsllao, decide_false, Bool.false_and, Bool.or_false]
      refine h.of_same ?_
      rw [nsOption, if_neg hsllao]
  reads x l known h := by
    by_cases hsllao : msg.optType x = optSllao
    · rw [Loop.Within, reads_nsOption hsllao, h.sender]
      simp [Loop.Within, hsllao, or_imp, forall_and]
    · rw [nsOption, if_neg hsllao]
      simp [Loop.Within, hsllao, or_imp, forall_and]

theorem step_raOption : msg.Step e t msg.FieldsWithin (raOption e msg) where
  sees x l known h := by
    by_cases hsllao : msg.optType x = optSllao
    · simp only [hsllao, decide_true, Bool.true_and]
      exact h.sllao ipaddr_raUpdate (neighbors_raOption hsllao)
    · simp only [hsllao, decide_false, Bool.false_and, Bool.or_false]
      refine h.of_same ?_
      rw [raOption, if_neg hsllao]
      split
      · rfl
      · split <;> rfl
  reads x l known h := by
    by_cases hsllao : msg.optType x = optSllao
    · have hmtu : optSllao ≠ optMtu := by decide
      have hprefix : optSllao ≠ optPrefixInfo := by decide
      rw [Loop.Within, reads_raOption hsllao, h.sender]
      simp [Loop.Within, Message.FieldsWithin, hsllao, hmtu, hprefix, or_imp, forall_and]
    · rw [raOption, if_neg hsllao]
      by_cases hmtu : msg.optType x = optMtu
      · have hprefix : optMtu ≠ optPrefixInfo := by decide
        have hne : optMtu ≠ optSllao := by decide
        simp [Loop.Within, Message.FieldsWithin, hmtu, hprefix, hne, or_imp, forall_and]
      · rw [if_neg hmtu]
        by_cases hprefix : msg.optType x = optPrefixInfo
        · have hne : optPrefixInfo ≠ optSllao := by decide
          have hne' : optPrefixInfo ≠ optMtu := by decide
          simp [Loop.Within, Message.FieldsWithin, hprefix, hne, hne', or_imp, forall_and]
        · simp [Loop.Within, Message.FieldsWithin, hsllao, hmtu, hprefix, or_imp, forall_and]

/-- What is read along the options. -/
theorem Message.Step.within_foldl {fields : UInt8 → Prop} {option : UInt8 → Loop → Loop}
    (hstep : msg.Step e t fields option) (xs : List UInt8) (h : msg.Sees t l known) :
    (xs.foldl (fun l x => option x l) l).Within msg.uipLen.toNat ↔
      l.Within msg.uipLen.toNat ∧ (∀ x ∈ xs, msg.opt x + 2 ≤ msg.uipLen.toNat) ∧
        msg.SllaosWithin e t known xs ∧ ∀ x ∈ xs, fields x := by
  induction xs generalizing l known with
  | nil => simp [Message.SllaosWithin]
  | cons x xs ih =>
      rw [List.foldl_cons, ih (hstep.sees x l known h), hstep.reads x l known h,
        List.forall_mem_cons, List.forall_mem_cons, Message.SllaosWithin]
      tauto

theorem lastOption_cons (type : UInt8) (x : UInt8) (xs : List UInt8) :
    msg.lastOption type (x :: xs) =
      (msg.lastOption type xs).or (if msg.optType x = type then some x else none) := by
  unfold Message.lastOption
  by_cases htype : msg.optType x = type
  · rw [List.filter_cons_of_pos (by simpa using htype), List.getLast?_cons, if_pos htype]
    cases (xs.filter fun x => msg.optType x = type).getLast? <;> rfl
  · rw [List.filter_cons_of_neg (by simpa using htype), if_neg htype, Option.or_none]

/-- The loops that only look for an option remember the last one. -/
theorem foldl_llaoOption (type : UInt8) (xs : List UInt8) (l : Loop) :
    xs.foldl (fun l x => llaoOption type msg x l) l =
      ⟨l.ds6, (msg.lastOption type xs).or l.llao, l.reads ++ xs.map fun x => msg.opt x + 2⟩ := by
  induction xs generalizing l with
  | nil => simp [Message.lastOption]
  | cons x xs ih =>
      rw [List.foldl_cons, ih, lastOption_cons, llaoOption_ds6]
      by_cases htype : msg.optType x = type
      · simp [llaoOption, htype]
      · simp [llaoOption, htype]

theorem reads_naFinish (l : Loop) : (naFinish e msg l).reads = l.reads ++
    if addrLookup l.ds6.addrs msg.tgtipaddr = none ∧
        (nbrLookup l.ds6.neighbors msg.tgtipaddr).isSome then
      (l.llao.map fun x => msg.opt x + 8).toList
    else [] := by
  cases haddr : addrLookup l.ds6.addrs msg.tgtipaddr with
  | some i =>
      simp only [naFinish, haddr, reduceCtorEq, false_and, if_false, List.append_nil]
      split <;> rfl
  | none =>
      cases hnbr : nbrLookup l.ds6.neighbors msg.tgtipaddr with
      | none => simp [naFinish, haddr, hnbr]
      | some k => simp [naFinish, haddr, hnbr]

theorem within_naFinish (l : Loop) :
    (∀ r ∈ (naFinish e msg l).reads, r ≤ msg.uipLen.toNat) ↔ l.Within msg.uipLen.toNat ∧
      ∀ x ∈ l.llao, msg.naLlaoWithin l.ds6 x := by
  rw [reads_naFinish, List.forall_mem_append]
  refine and_congr_right fun _ => ?_
  unfold Message.naLlaoWithin
  split
  next hread => cases l.llao <;> simp [hread]
  next hskip =>
    refine iff_of_true (List.forall_mem_nil _) fun x _ haddr hnbr => ?_
    exact absurd ⟨haddr, hnbr⟩ hskip

theorem reads_rsFinish (l : Loop) : (rsFinish e msg l).reads = l.reads ++
    if isAddrUnspecified msg.srcipaddr then []
    else (l.llao.map fun x => msg.opt x + msg.rsExtent l.ds6 x).toList := by
  cases hllao : l.llao with
  | none => simp [rsFinish, hllao]
  | some x =>
      by_cases hsrc : isAddrUnspecified msg.srcipaddr = true
      · simp [rsFinish, hllao, hsrc]
      · cases hnbr : nbrLookup l.ds6.neighbors msg.srcipaddr with
        | none => simp [rsFinish, hllao, hsrc, hnbr, Message.rsExtent]
        | some k =>
            by_cases hmoved : (msg.optLlao x).lladdr ≠ (nbrGet l.ds6.neighbors k).lladdr
            · simp only [rsFinish, hllao, hsrc, hnbr, Message.rsExtent, if_pos hmoved]
              cases rsMove e msg x l.ds6.neighbors k with
              | mk r t => cases r <;> simp [hmoved]
            · simp [rsFinish, hllao, hsrc, hnbr, Message.rsExtent, hmoved]

theorem within_rsFinish (l : Loop) :
    (∀ r ∈ (rsFinish e msg l).reads, r ≤ msg.uipLen.toNat) ↔ l.Within msg.uipLen.toNat ∧
      ∀ x ∈ l.llao, msg.rsLlaoWithin l.ds6 x := by
  rw [reads_rsFinish, List.forall_mem_append]
  refine and_congr_right fun _ => ?_
  unfold Message.rsLlaoWithin
  cases isAddrUnspecified msg.srcipaddr <;> cases l.llao <;> simp

/-- What is read along the path of the loop. -/
theorem Kind.within_after_iff (xs : List UInt8) :
    (kind.after e msg d xs).Within msg.uipLen.toNat ↔
      (∀ x ∈ xs, msg.opt x + 2 ≤ msg.uipLen.toNat) ∧ kind.PayloadsWithin e msg d xs := by
  have hsees : ∀ d' : Ds6, msg.Sees d'.neighbors ⟨d', none, []⟩ (msg.known d'.neighbors) :=
    fun d' => ⟨rfl, fun _ => rfl⟩
  have hempty : ∀ d' : Ds6, (Loop.mk d' none []).Within msg.uipLen.toNat :=
    fun d' => List.forall_mem_nil _
  have hllao : ∀ type, (xs.foldl (fun l x => llaoOption type msg x l) ⟨d, none, []⟩).Within
      msg.uipLen.toNat ↔ ∀ x ∈ xs, msg.opt x + 2 ≤ msg.uipLen.toNat := by
    intro type
    rw [foldl_llaoOption]
    simp [Loop.Within]
  cases kind with
  | ns =>
      refine (step_nsOption.within_foldl (e := e) xs (hsees d)).trans ?_
      simp [hempty, Kind.PayloadsWithin]
  | na => exact (hllao optTllao).trans (and_iff_left trivial).symm
  | rs => exact (hllao optSllao).trans (and_iff_left trivial).symm
  | ra =>
      refine (step_raOption.within_foldl (e := e) xs
        (hsees { d with netif := raNetif e msg d.netif })).trans ?_
      simp [hempty, Kind.PayloadsWithin]

/-- What is read on the path and behind the loop. -/
theorem Kind.within_outcome_iff (xs : List UInt8) (last : Option UInt8) :
    (∀ r ∈ (kind.outcome e msg d xs last).reads, r ≤ msg.uipLen.toNat) ↔
      ((∀ x ∈ xs, msg.opt x + 2 ≤ msg.uipLen.toNat) ∧
        ∀ x ∈ last, msg.opt x + 2 ≤ msg.uipLen.toNat) ∧
      kind.PayloadsWithin e msg d xs ∧ (last = none → kind.LlaoWithin msg d xs) := by
  have hafter : (kind.after e msg d xs).Within msg.uipLen.toNat ↔ _ := within_after_iff xs
  cases last with
  | some y =>
      have hlast : (∀ r ∈ (kind.outcome e msg d xs (some y)).reads, r ≤ msg.uipLen.toNat) ↔
          (kind.after e msg d xs).Within msg.uipLen.toNat ∧
            msg.opt y + 2 ≤ msg.uipLen.toNat := by
        simp [outcome, Loop.Within, or_imp, forall_and]
      rw [hlast, hafter]
      simp
      tauto
  | none =>
      have hfinish : (∀ r ∈ (kind.outcome e msg d xs none).reads, r ≤ msg.uipLen.toNat) ↔
          (kind.after e msg d xs).Within msg.uipLen.toNat ∧ kind.LlaoWithin msg d xs := by
        cases kind with
        | ns => exact (and_iff_left trivial).symm
        | na =>
            have hna : Kind.na.after e msg d xs = _ := foldl_llaoOption optTllao xs ⟨d, none, []⟩
            refine (within_naFinish _).trans (and_congr_right fun _ => ?_)
            rw [hna, Option.or_none]
            rfl
        | rs =>
            have hrs : Kind.rs.after e msg d xs = _ := foldl_llaoOption optSllao xs ⟨d, none, []⟩
            refine (within_rsFinish _).trans (and_congr_right fun _ => ?_)
            rw [hrs, Option.or_none]
            rfl
        | ra =>
            have hreads : (Kind.outcome .ra e msg d xs none).reads =
                (Kind.after .ra e msg d xs).reads := by
              simp only [outcome, Kind.finish, raFinish]
              split
              · rfl
              · split <;> rfl
            rw [hreads]
            exact (and_iff_left trivial).symm
      rw [hfinish, hafter]
      simp
      tauto

end Reads

/-! ### Messages that are handled as they should be -/

theorem Kind.Path.exists_bad_iff (h : kind.Path msg xs last) :
    (∃ y, kind.Meets msg y ∧ kind.bad msg y = true) ↔ ∃ y, last = some y := by
  obtain ⟨htaken, hlast⟩ := h.bad_eq
  have hnone := h.forall_iff (P := fun x => ¬ kind.bad msg x = true)
  constructor
  · rintro ⟨y, hy, hbad⟩
    by_contra hno
    push Not at hno
    refine hnone.mpr ⟨fun x hx => ?_, fun x hx => absurd hx (hno x)⟩ y hy hbad
    rw [htaken x hx]
    exact Bool.false_ne_true
  · rintro ⟨y, rfl⟩
    by_contra hno
    push Not at hno
    exact (hnone.mp hno).2 y rfl (hlast y rfl)

/-- No option acts when none of those that are taken does. -/
theorem Kind.Path.quiet_iff (h : kind.Path msg xs last) :
    (∀ y, kind.Meets msg y → kind.bad msg y = false → ¬ kind.Acts e msg d y) ↔
      ∀ x ∈ xs, ¬ kind.Acts e msg d x := by
  obtain ⟨htaken, hlast⟩ := h.bad_eq
  rw [h.forall_iff]
  constructor
  · exact fun hquiet x hx => hquiet.1 x hx (htaken x hx)
  · refine fun hquiet => ⟨fun x hx _ => hquiet x hx, fun x hx hgood => ?_⟩
    rw [hlast x hx] at hgood
    cases hgood

theorem Kind.conforms_of_rejected (h : kind.rejected msg = true) : kind.Conforms e msg d where
  ends := by
    refine ⟨0, ?_⟩
    rw [Kind.input, if_pos h]
    exact Option.some_ne_none _
  reads n o ho := by
    rw [Kind.input, if_pos h] at ho
    obtain rfl := Option.some.inj ho
    exact List.forall_mem_nil _
  atomic hno := by
    rw [h] at hno
    cases hno

/-- A message is handled as it should be where it is rejected at once or its options fit. -/
theorem Kind.conforms_iff_fits (kind : Kind) (e : Env) (msg : Message) (d : Ds6) :
    kind.Conforms e msg d ↔ kind.rejected msg = true ∨ kind.Fits e msg d := by
  by_cases hrejected : kind.rejected msg = true
  · exact iff_of_true (conforms_of_rejected hrejected) (.inl hrejected)
  · rw [Bool.not_eq_true] at hrejected
    rw [hrejected, or_iff_right Bool.false_ne_true]
    constructor
    · intro h
      obtain ⟨xs, last, hpath⟩ := (ends_iff hrejected).mp h.ends
      obtain ⟨n, o, ho⟩ : ∃ n o, kind.input n e msg d = some o := by
        obtain ⟨n, hn⟩ := h.ends
        exact ⟨n, Option.ne_none_iff_exists'.mp hn⟩
      have hreads := h.reads n o ho
      rw [(hpath.input hrejected).2 n o ho, within_outcome_iff, ← hpath.forall_iff] at hreads
      obtain ⟨hheader, hpayload, hbehind⟩ := hreads
      refine ⟨exists_path_iff.mp ⟨xs, last, hpath⟩, hheader, fun ys l hys => ?_,
        fun ys hys => ?_, fun hinvalid => ?_⟩
      · rwa [(hys.unique hpath).1]
      · obtain ⟨rfl, rfl⟩ := hys.unique hpath
        exact hbehind rfl
      · obtain ⟨ys, y, hys, hsame, -⟩ := h.atomic hrejected hinvalid
        rw [hys.exists_bad_iff, hys.quiet_iff, ← after_entries_iff]
        exact ⟨⟨y, rfl⟩, hsame⟩
    · intro h
      obtain ⟨xs, last, hpath⟩ := exists_path_iff.mpr h.stops
      obtain ⟨hends, houtcome⟩ := hpath.input (e := e) (d := d) hrejected
      refine ⟨hends, fun n o ho => ?_, fun _ hinvalid => ?_⟩
      · rw [houtcome n o ho, within_outcome_iff, ← hpath.forall_iff]
        refine ⟨h.header, h.payload xs last hpath, fun hnone => ?_⟩
        subst hnone
        exact h.behind xs hpath
      · obtain ⟨hbad, hquiet⟩ := h.valid hinvalid
        obtain ⟨y, rfl⟩ := hpath.exists_bad_iff.mp hbad
        rw [hpath.quiet_iff, ← after_entries_iff] at hquiet
        refine ⟨xs, y, hpath, hquiet, fun n o ho => ?_⟩
        rw [houtcome n o ho]
        exact ⟨rfl, hquiet xs (List.prefix_refl xs)⟩

/-- The solicitation of a neighbor, in a packet of 72 bytes. Its source link-layer address
option is the last that is in the packet. -/
def sllaoMessage (len : UInt8) : Message where
  mem := fun p => if p = 7 then 0xff else if p = 8 then 0xfe else if p = 64 then 1
    else if p = 65 then len else 0
  uipLen := 72
  uipExtLen := 0

def loneEnv : Env where
  now := 0
  lladdr := Vector.replicate 6 1
  router := false
  callback := fun _ _ t => t
  behind := false
  fresh := ⟨0, 0⟩
  computeReachableTime := fun base => base

/-- A node with empty tables. -/
def loneNode : Ds6 where
  neighbors := Nbr.Table.init 8 fun _ => ⟨unspecified, ⟨0, 0⟩, ⟨0, 0⟩, 0, 0, .stale⟩
  addrs := []
  prefixes := []
  defrts := []
  netif := ⟨64, 1280, 30000, 30000, 1000⟩
  nbr := none

/-- The loop does not come past an option of 256 bytes, and two bytes are read behind the
option that a new neighbor sends. -/
theorem not_conforms_sllao : ¬ Kind.ns.Conforms loneEnv (sllaoMessage 32) loneNode ∧
    ¬ Kind.ns.Conforms loneEnv (sllaoMessage 1) loneNode := by
  constructor
  · intro h
    have hstay : (sllaoMessage 32).nextOpt 20 = 20 := by decide +kernel
    have hplace : ∀ x, Reached (sllaoMessage 32).nextOpt (sllaoMessage 32).inside
        (Kind.ns.bad (sllaoMessage 32)) 20 x → x = 20 := by
      intro x hx
      induction hx with
      | start => rfl
      | step _ _ ih =>
          rw [ih]
          exact hstay
    obtain ⟨x, hreached, hleft⟩ :=
      Kind.exists_path_iff.mp ((Kind.ends_iff (by decide +kernel)).mp h.ends)
    rw [hplace x hreached] at hleft
    revert hleft
    decide +kernel
  · intro h
    have hread : (Kind.ns.input 2 loneEnv (sllaoMessage 1) loneNode).map Outcome.reads =
        some [66, 74] := by
      decide +kernel
    obtain ⟨o, ho, hreads⟩ := Option.map_eq_some_iff.mp hread
    have hle := h.reads 2 o ho 74 (by rw [hreads]; decide)
    revert hle
    decide +kernel

end Calipso.Uip
