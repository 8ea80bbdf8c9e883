import Calipso.Rime.RouteDiscovery

/-!
# The outcome of route discoveries

What is asked on a connection is told from what has been seen: a discovery that was accepted is over
with a reply from the node that was asked for, with the time-out, or when the connection is closed.
`outcome_of_run` says what holds in a run in which replies answer what is asked and no connection is
closed while something is asked on it.
-/

namespace Calipso.Rime

open Net

namespace RouteDiscovery

variable {κ : Type*} [DecidableEq κ]

/-! ### What is asked -/

/-- The destination that is asked for on each connection. -/
abbrev Asked (κ : Type*) := κ → Option RimeAddr

/-- Nothing is asked. -/
def idle : Asked κ := fun _ => none

def Act.effect (asked : Asked κ) : Act κ → Asked κ
  | .accepted c dest => Function.update asked c (some dest)
  | .replied c originator _ =>
    if asked c = some originator then Function.update asked c none else asked
  | .expired c _ => Function.update asked c none
  | .closed c => Function.update asked c none
  | _ => asked

/-- What is asked after all this, if `asked` was before. -/
def after (asked : Asked κ) (acts : List (Act κ)) : Asked κ := acts.foldl Act.effect asked

/-- Something is a callback on the connection. -/
def Act.Calls (c : κ) : Act κ → Bool
  | .replied c' _ called => called && c' = c
  | .expired c' called => called && c' = c
  | _ => false

/-- Something is a discovery on the connection that was accepted. -/
def Act.Accepts (c : κ) : Act κ → Bool
  | .accepted c' _ => c' = c
  | _ => false

/-- A callback is due: `new_route` for what is asked, `timedout` when something is asked. -/
def Act.Due (asked : Asked κ) : Act κ → Prop
  | .replied c originator called => called = true → asked c = some originator
  | .expired c called => called = true → (asked c).isSome
  | _ => True

/-- All callbacks are due when they are made. -/
def AllDue : Asked κ → List (Act κ) → Prop
  | _, [] => True
  | asked, a :: acts => a.Due asked ∧ AllDue (a.effect asked) acts

variable {asked : Asked κ} {acts pre post : List (Act κ)} {a : Act κ} {c : κ}

theorem allDue_append : AllDue asked (pre ++ post) ↔ AllDue asked pre ∧ AllDue (after asked pre) post := by
  induction pre generalizing asked with
  | nil => exact (and_iff_right trivial).symm
  | cons a pre ih =>
      rw [List.cons_append, AllDue, AllDue, ih, and_assoc]
      rfl

/-- A callback that is due finds something asked, and leaves nothing. -/
theorem Act.Due.over (h : a.Due asked) (hcalls : a.Calls c) :
    (asked c).isSome ∧ (a.effect asked) c = none := by
  cases a with
  | replied c' originator called =>
      rw [Calls, Bool.and_eq_true, decide_eq_true_iff] at hcalls
      obtain ⟨hcalled, rfl⟩ := hcalls
      have hasked := h hcalled
      rw [effect, if_pos hasked, Function.update_self, hasked]
      exact ⟨rfl, rfl⟩
  | expired c' called =>
      rw [Calls, Bool.and_eq_true, decide_eq_true_iff] at hcalls
      obtain ⟨hcalled, rfl⟩ := hcalls
      exact ⟨h hcalled, Function.update_self ..⟩
  | _ => exact absurd hcalls Bool.false_ne_true

/-- Only a discovery that is accepted makes something asked. -/
theorem Act.effect_none (hasked : asked c = none) (ha : a.Accepts c = false) :
    (a.effect asked) c = none := by
  have hcleared : ∀ c', Function.update asked c' none c = none := fun c' => by
    by_cases hc : c = c'
    · rw [hc, Function.update_self]
    · rw [Function.update_of_ne hc, hasked]
  cases a with
  | accepted c' dest =>
      have hc : c ≠ c' := fun hc => of_decide_eq_false ha hc.symm
      exact (Function.update_of_ne hc _ _).trans hasked
  | replied c' originator called =>
      rw [effect]
      split_ifs
      · exact hcleared c'
      · exact hasked
  | expired c' called => exact hcleared c'
  | closed c' => exact hcleared c'
  | _ => exact hasked

/-- Without another discovery there is at most one callback, and none if nothing is asked. -/
theorem AllDue.countP_le (h : AllDue asked acts) (haccepts : ∀ a ∈ acts, a.Accepts c = false) :
    acts.countP (Act.Calls c) ≤ 1 ∧ (asked c = none → acts.countP (Act.Calls c) = 0) := by
  induction acts generalizing asked with
  | nil => exact ⟨Nat.zero_le 1, fun _ => rfl⟩
  | cons a acts ih =>
      obtain ⟨hle, hzero⟩ := ih h.2 fun b hb => haccepts b (List.mem_cons_of_mem a hb)
      by_cases hcalls : a.Calls c
      · obtain ⟨hsome, hnone⟩ := h.1.over hcalls
        rw [List.countP_cons_of_pos hcalls, hzero hnone]
        refine ⟨Nat.le_refl 1, fun hasked => ?_⟩
        rw [hasked] at hsome
        cases hsome
      · rw [List.countP_cons_of_neg hcalls]
        exact ⟨hle, fun hasked =>
          hzero (Act.effect_none hasked (haccepts a List.mem_cons_self))⟩

/-! ### What holds all the time -/

/-- The flag is set while something is asked, which is on one connection only, and the timers that
are set are those of connections on which something is asked. -/
structure Kept (s : Node κ) (asked : Asked κ) : Prop where
  routes : ∃ l, s.routes.Listed l
  pending : s.rrepPending = true ↔ ∃ c, (asked c).isSome
  timer : ∀ c, (s.conn c).timer = (asked c).isSome
  unique : ∀ c c', (asked c).isSome → (asked c').isSome → c = c'

/-- The condition of an event: a connection is closed when nothing is asked on it, and a reply for
this node comes from the node that is asked for on the connection, or when nothing is asked at all
and there is no callback. -/
def Meets (s : Node κ) (asked : Asked κ) : Event κ → Prop
  | .close c => asked c = none
  | .rrep c _ msg => (s.conn c).isOpen = true → msg.dest = s.nodeAddr →
      asked c = some msg.originator ∨ s.rrepPending = false ∧ (s.conn c).cb.newRoute = false
  | _ => True

/-- All the events of a run meet their conditions. -/
def MeetsAll : Node κ → Asked κ → List (Event κ) → Prop
  | _, _, [] => True
  | s, asked, ev :: evs => Meets s asked ev ∧
    ∀ s' acts, s.step ev = some (s', acts) → MeetsAll s' (after asked acts) evs

variable {s s' : Node κ} {ev : Event κ} {evs : List (Event κ)}

omit [DecidableEq κ] in
theorem kept_init (nodeAddr : RimeAddr) (conn : κ → Conn) (entry : Nat → RouteEntry) :
    Kept (Node.init nodeAddr conn entry) idle where
  routes := ⟨[], Routes.listed_init entry⟩
  pending := iff_of_false Bool.false_ne_true fun ⟨_, hc⟩ => Bool.false_ne_true hc
  timer _ := rfl
  unique _ _ hc := absurd hc Bool.false_ne_true

theorem modify_conn_self (s : Node κ) (c : κ) (f : Conn → Conn) :
    (s.modify c f).conn c = f (s.conn c) :=
  Function.update_self ..

theorem modify_conn_of_ne (s : Node κ) {c c' : κ} (hc : c' ≠ c) (f : Conn → Conn) :
    (s.modify c f).conn c' = s.conn c' :=
  Function.update_of_ne hc _ _

/-- A change of a connection that leaves its timer. -/
theorem Kept.modify (h : Kept s asked) {f : Conn → Conn}
    (hf : (f (s.conn c)).timer = (s.conn c).timer) : Kept (s.modify c f) asked where
  routes := h.routes
  pending := h.pending
  timer c' := by
    rw [← h.timer c']
    by_cases hc : c' = c
    · rw [hc, modify_conn_self, hf]
    · rw [modify_conn_of_ne s hc]
  unique := h.unique

omit [DecidableEq κ] in
theorem Kept.insertRoute (h : Kept s asked) (originator lastHop : RimeAddr) (hops : UInt8) :
    ∃ routes, s.insertRoute originator lastHop hops = some { s with routes := routes } ∧
      Kept { s with routes := routes } asked := by
  obtain ⟨l, hl⟩ := h.routes
  obtain ⟨routes, e, l', hadd, -, hlisted, -⟩ := hl.add originator lastHop hops 0
  exact ⟨routes, by rw [Node.insertRoute, hadd, Option.map_some], ⟨e :: l', hlisted⟩, h.pending,
    h.timer, h.unique⟩

omit [DecidableEq κ] in
theorem Kept.nexthop (h : Kept s asked) (dest : RimeAddr) : ∃ r, s.nexthop dest = some r := by
  obtain ⟨l, hl⟩ := h.routes
  obtain ⟨r, hlookup, -⟩ := hl.lookup dest
  exact ⟨r.map fun e => (s.routes.entry e).nexthop, by rw [Node.nexthop, hlookup, Option.map_some]⟩

/-- Packets for other nodes change nothing that is asked. -/
theorem after_sendTo (asked : Asked κ) (c : κ) (msg : RrepHdr) (r : Option RimeAddr) :
    after asked (Node.sendTo c msg r) = asked ∧ AllDue asked (Node.sendTo c msg r) := by
  cases r with
  | none => exact ⟨rfl, trivial⟩
  | some nexthop => exact ⟨rfl, trivial, trivial⟩

omit [DecidableEq κ] in
/-- While the flag is not set nothing is asked. -/
theorem Kept.eq_none (h : Kept s asked) (hpending : s.rrepPending = false) (c : κ) :
    asked c = none := by
  by_contra hsome
  have hset := h.pending.mpr ⟨c, Option.isSome_iff_ne_none.mpr hsome⟩
  rw [hpending] at hset
  cases hset

/-- What is asked on one connection is all that is asked. -/
theorem Kept.cleared (h : Kept s asked) (hc : (asked c).isSome) (c' : κ) :
    Function.update asked c none c' = none := by
  by_cases hcc : c' = c
  · rw [hcc, Function.update_self]
  · rw [Function.update_of_ne hcc]
    by_contra hsome
    exact hcc (h.unique c' c (Option.isSome_iff_ne_none.mpr hsome) hc)

/-- What is asked on a connection is over, and its timer is stopped. -/
theorem Kept.clear (h : Kept s asked) (hc : (asked c).isSome) :
    Kept { s.modify c fun conn => { conn with timer := false } with rrepPending := false }
      (Function.update asked c none) where
  routes := h.routes
  pending := by
    refine iff_of_false Bool.false_ne_true ?_
    rintro ⟨c', hc'⟩
    rw [h.cleared hc c'] at hc'
    cases hc'
  timer c' := by
    rw [h.cleared hc c']
    show ((s.modify c fun conn => { conn with timer := false }).conn c').timer = false
    by_cases hcc : c' = c
    · rw [hcc, modify_conn_self]
    · have hnone := h.cleared hc c'
      rw [Function.update_of_ne hcc] at hnone
      rw [modify_conn_of_ne s hcc, h.timer c', hnone]
      rfl
  unique c₁ c₂ h₁ h₂ := by
    rw [h.cleared hc c₁] at h₁
    cases h₁

/-! ### The events -/

theorem Kept.discover (h : Kept s asked) (c : κ) (addr : RimeAddr) :
    Kept (s.discover c addr).1 (after asked (s.discover c addr).2) ∧
      AllDue asked (s.discover c addr).2 := by
  cases hpending : s.rrepPending with
  | true =>
      rw [Node.discover, if_pos hpending]
      exact ⟨h, trivial, trivial⟩
  | false =>
      rw [Node.discover, if_neg (by rw [hpending]; exact Bool.false_ne_true)]
      have honly : ∀ c', (Function.update asked c (some addr) c').isSome → c' = c := by
        intro c' hc'
        by_contra hcc
        rw [Function.update_of_ne hcc, h.eq_none hpending c'] at hc'
        cases hc'
      refine ⟨⟨h.routes, iff_of_true rfl ⟨c, ?_⟩, fun c' => ?_, fun c₁ c₂ h₁ h₂ => ?_⟩, trivial,
        trivial, trivial⟩
      · show (Function.update asked c (some addr) c).isSome
        rw [Function.update_self]
        rfl
      · show ((s.modify c fun conn =>
          { conn with timer := true, rreqId := conn.rreqId + 1 }).conn c').timer =
            (Function.update asked c (some addr) c').isSome
        by_cases hcc : c' = c
        · rw [hcc, modify_conn_self, Function.update_self]
          rfl
        · rw [modify_conn_of_ne s hcc, Function.update_of_ne hcc, h.timer c']
      · rw [honly c₁ h₁, honly c₂ h₂]

theorem Kept.rrep (h : Kept s asked) (sender : RimeAddr) (msg : RrepHdr)
    (hmeets : msg.dest = s.nodeAddr →
      asked c = some msg.originator ∨ s.rrepPending = false ∧ (s.conn c).cb.newRoute = false) :
    ∃ s' acts, s.rrepPacketReceived c sender msg = some (s', acts) ∧
      Kept s' (after asked acts) ∧ AllDue asked acts := by
  obtain ⟨routes, hinsert, hkept⟩ := h.insertRoute msg.originator sender msg.hops
  rw [Node.rrepPacketReceived, hinsert, Option.bind_some]
  by_cases hdest : msg.dest = s.nodeAddr
  · rw [if_pos hdest]
    refine ⟨_, _, rfl, ?_⟩
    rcases hmeets hdest with hasked | ⟨hpending, hcallback⟩
    · have hafter : after asked [.replied c msg.originator (s.conn c).cb.newRoute] =
          Function.update asked c none := if_pos hasked
      rw [hafter]
      exact ⟨hkept.clear (by rw [hasked]; rfl), fun _ => hasked, trivial⟩
    · have hnone := h.eq_none hpending
      have hafter : after asked [.replied c msg.originator (s.conn c).cb.newRoute] = asked :=
        if_neg (by rw [hnone c]; exact (Option.some_ne_none _).symm)
      have htimer : (s.conn c).timer = false := by
        rw [h.timer c, hnone c]
        rfl
      rw [hafter]
      refine ⟨?_, fun hcalled => ?_, trivial⟩
      · have hmodified := hkept.modify (c := c) (f := fun conn => { conn with timer := false })
          htimer.symm
        exact ⟨hmodified.routes, by rw [← hpending]; exact hmodified.pending, hmodified.timer,
          hmodified.unique⟩
      · rw [hcallback] at hcalled
        cases hcalled
  · obtain ⟨r, hr⟩ := hkept.nexthop msg.dest
    rw [if_neg hdest, hr, Option.map_some]
    obtain ⟨hafter, hdue⟩ := after_sendTo asked c { msg with hops := msg.hops + 1 } r
    exact ⟨_, _, rfl, by rw [hafter]; exact hkept, hdue⟩

theorem Kept.rreq (h : Kept s asked) (c : κ) (sender originator : RimeAddr) (hops : UInt8)
    (msg : RouteMsg) :
    ∃ s' acts, s.rreqPacketReceived c sender originator hops msg = some (s', acts) ∧
      Kept s' (after asked acts) ∧ AllDue asked acts := by
  rw [Node.rreqPacketReceived]
  split_ifs
  · exact ⟨s, [], rfl, h, trivial⟩
  · have hnoted : Kept (s.noteRreq c originator msg.rreqId) asked := h.modify rfl
    obtain ⟨routes, hinsert, hkept⟩ := hnoted.insertRoute originator sender hops
    rw [hinsert, Option.bind_some]
    split_ifs
    · obtain ⟨r, hr⟩ := hkept.nexthop originator
      rw [Node.sendRrep, hr, Option.map_some, Option.map_some]
      obtain ⟨hafter, hdue⟩ := after_sendTo asked c ⟨0, originator, s.nodeAddr⟩ r
      exact ⟨_, _, rfl, hafter.symm ▸ hkept, hdue⟩
    · exact ⟨_, _, rfl, hkept, trivial, trivial⟩

/-- One event. -/
theorem Kept.step (h : Kept s asked) (hmeets : Meets s asked ev) : ∃ s' acts,
    s.step ev = some (s', acts) ∧ Kept s' (after asked acts) ∧ AllDue asked acts := by
  cases ev with
  | openConn c cb => exact ⟨_, _, rfl, h.modify rfl, trivial⟩
  | discover c addr => exact ⟨_, _, rfl, h.discover c addr⟩
  | close c =>
      have hnone : asked c = none := hmeets
      have htimer : (s.conn c).timer = false := by
        rw [h.timer c, hnone]
        rfl
      have hafter : after asked [.closed c] = asked :=
        Function.update_eq_self_iff.mpr hnone.symm
      refine ⟨_, _, rfl, ?_, trivial, trivial⟩
      rw [show after asked _ = asked from hafter]
      exact h.modify htimer.symm
  | rrep c sender msg =>
      rw [Node.step]
      split_ifs with hopen
      · exact h.rrep sender msg (hmeets hopen)
      · exact ⟨s, [], rfl, h, trivial⟩
  | rreq c sender originator hops msg =>
      rw [Node.step]
      split_ifs
      · exact h.rreq c sender originator hops msg
      · exact ⟨s, [], rfl, h, trivial⟩
  | timeout c =>
      rw [Node.step]
      split_ifs with htimer
      · rw [h.timer c] at htimer
        exact ⟨_, _, rfl, h.clear htimer, fun _ => htimer, trivial⟩
      · exact ⟨s, [], rfl, h, trivial⟩

theorem Kept.run (h : Kept s asked) (hmeets : MeetsAll s asked evs) : ∃ s' acts,
    s.run evs = some (s', acts) ∧ Kept s' (after asked acts) ∧ AllDue asked acts := by
  induction evs generalizing s asked with
  | nil => exact ⟨s, [], rfl, h, trivial⟩
  | cons ev evs ih =>
      obtain ⟨s₁, acts₁, hstep, hkept, hdue⟩ := h.step hmeets.1
      obtain ⟨s', acts, hrun, hkept', hdue'⟩ := ih hkept (hmeets.2 s₁ acts₁ hstep)
      refine ⟨s', acts₁ ++ acts, ?_, ?_, allDue_append.mpr ⟨hdue, hdue'⟩⟩
      · rw [Node.run, hstep, Option.bind_some, hrun, Option.map_some]
      · rw [after, List.foldl_append]
        exact hkept'

/-! ### What the user sees -/

/-- Each discovery that is accepted is followed by at most one callback before the next one. -/
def OneOutcome (acts : List (Act κ)) : Prop :=
  ∀ c dest pre mid post, acts = pre ++ .accepted c dest :: (mid ++ post) →
    (∀ a ∈ mid, a.Accepts c = false) → mid.countP (Act.Calls c) ≤ 1

/-- `new_route` is called for what is asked on the connection. -/
def RightRoute (acts : List (Act κ)) : Prop :=
  ∀ c originator pre post, acts = pre ++ .replied c originator true :: post →
    after idle pre c = some originator

theorem AllDue.oneOutcome (h : AllDue idle acts) : OneOutcome acts := by
  rintro c dest pre mid post rfl haccepts
  have hmid := (allDue_append.mp (allDue_append.mp h).2.2).1
  exact (hmid.countP_le haccepts).1

theorem AllDue.rightRoute (h : AllDue idle acts) : RightRoute acts := by
  rintro c originator pre post rfl
  exact (allDue_append.mp h).2.1 rfl

/-- In a run whose replies for this node answer what is asked, and in which no connection is closed
while something is asked on it, there is at most one callback for each discovery, `new_route` is
called for what is asked, and the flag is set while something is asked, which ends with a time-out
if nothing else happens. -/
theorem outcome_of_run (nodeAddr : RimeAddr) (conn : κ → Conn) (entry : Nat → RouteEntry)
    (evs : List (Event κ)) (h : MeetsAll (Node.init nodeAddr conn entry) idle evs) :
    ∃ s acts, (Node.init nodeAddr conn entry).run evs = some (s, acts) ∧ OneOutcome acts ∧
      RightRoute acts ∧ (s.rrepPending = true ↔ ∃ c, (after idle acts c).isSome) ∧
      (s.rrepPending = true → ∃ c s' acts', s.step (.timeout c) = some (s', acts') ∧
        s'.rrepPending = false) := by
  obtain ⟨s, acts, hrun, hkept, hdue⟩ := (kept_init nodeAddr conn entry).run h
  refine ⟨s, acts, hrun, hdue.oneOutcome, hdue.rightRoute, hkept.pending, fun hpending => ?_⟩
  obtain ⟨c, hc⟩ := hkept.pending.mp hpending
  have htimer : (s.conn c).timer = true := (hkept.timer c).trans hc
  exact ⟨c, (s.timeoutHandler c).1, (s.timeoutHandler c).2, if_pos htimer, rfl⟩

/-- A connection on which nothing has been done. -/
def unusedConn : Conn :=
  ⟨false, false, Vector.replicate 8 0, 0, 0, ⟨true, true⟩⟩

/-- The node 2 is asked for, and its reply comes in. -/
theorem outcome_of_run_replied :
    ∃ s acts, (Node.init (Vector.replicate 8 1) (fun _ : Bool => unusedConn)
        fun _ => Routes.unusedEntry).run
      [.openConn true ⟨true, true⟩, .discover true (Vector.replicate 8 2),
        .rrep true (Vector.replicate 8 3) ⟨1, Vector.replicate 8 1, Vector.replicate 8 2⟩] =
        some (s, acts) ∧ OneOutcome acts ∧ RightRoute acts := by
  have hmeets : MeetsAll (Node.init (Vector.replicate 8 1) (fun _ : Bool => unusedConn)
        fun _ => Routes.unusedEntry) idle
      [.openConn true ⟨true, true⟩, .discover true (Vector.replicate 8 2),
        .rrep true (Vector.replicate 8 3) ⟨1, Vector.replicate 8 1, Vector.replicate 8 2⟩] := by
    refine ⟨trivial, fun s₁ acts₁ h₁ => ⟨trivial, fun s₂ acts₂ h₂ => ⟨fun _ _ => .inl ?_,
      fun _ _ _ => trivial⟩⟩⟩
    cases h₁
    obtain rfl := (congrArg Prod.snd (Option.some.inj h₂)).symm
    rfl
  obtain ⟨s, acts, hrun, hone, hright, -⟩ := outcome_of_run _ _ _ _ hmeets
  exact ⟨s, acts, hrun, hone, hright⟩

/-- A connection is closed while something is asked on it: the flag stays set. -/
theorem not_outcome_of_any_run :
    ¬ ∀ (nodeAddr : RimeAddr) (conn : Bool → Conn) (entry : Nat → RouteEntry)
      (evs : List (Event Bool)), ∃ s acts,
      (Node.init nodeAddr conn entry).run evs = some (s, acts) ∧ OneOutcome acts ∧
        RightRoute acts ∧ (s.rrepPending = true ↔ ∃ c, (after idle acts c).isSome) := by
  intro h
  obtain ⟨s, acts, hrun, -, -, hpending⟩ := h (Vector.replicate 8 1) (fun _ => unusedConn)
    (fun _ => Routes.unusedEntry)
    [.openConn true ⟨true, true⟩, .discover true (Vector.replicate 8 2), .close true]
  have hvalue : ((Node.init (Vector.replicate 8 1) (fun _ : Bool => unusedConn)
      fun _ => Routes.unusedEntry).run
        [.openConn true ⟨true, true⟩, .discover true (Vector.replicate 8 2), .close true]).map
      (fun r => (r.1.rrepPending, after idle r.2 true, after idle r.2 false)) =
      some (true, none, none) := by
    decide
  rw [hrun, Option.map_some, Option.some_inj, Prod.mk.injEq, Prod.mk.injEq] at hvalue
  obtain ⟨hset, htrue, hfalse⟩ := hvalue
  obtain ⟨c, hc⟩ := hpending.mp hset
  cases c with
  | false =>
      rw [hfalse] at hc
      cases hc
  | true =>
      rw [htrue] at hc
      cases hc

end RouteDiscovery

end Calipso.Rime
