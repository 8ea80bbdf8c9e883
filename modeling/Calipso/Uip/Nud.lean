import Calipso.Uip.Neighbor

/-!
# Conformance of the neighbor cache

The handlers against the state machine of RFC 4861. The two differ where a solicitation has been
sent for the last time, since the entry is then removed without waiting for an answer, and for a
router solicitation that carries the address of an incomplete entry, which is not recorded.
-/

namespace Calipso.Uip

open Net Sicslowpan

/-! ### Events -/

/-- What can happen to a neighbor. -/
inductive Event
  | na (flags : UInt8) (tllao : Option LlAddr)
  | ns (sllao : LlAddr)
  | rs (sllao : LlAddr)
  | ra (sllao : LlAddr)
  | output
  | periodic

/-- The entry behind an event, and whether a solicitation is sent; nothing when a null pointer
is followed. -/
def step (m : Moment) (ipaddr : IpAddr) (e : Event) (n : Option Nbr) :
    Option (Option Nbr × Bool) :=
  match e with
  | .na flags tllao => some (n.map fun n => (naInput m flags tllao n).1, false)
  | .ns sllao => some (nsInput m ipaddr sllao n, false)
  | .rs sllao => (rsInput m ipaddr sllao n).map fun n => (n, false)
  | .ra sllao => some (raInput m ipaddr sllao n, false)
  | .output => some (output m ipaddr n)
  | .periodic =>
      match n with
      | none => some (none, false)
      | some n => some (neighborPeriodic m n)

/-! ### The entry of the standard -/

/-- What the standard knows of an entry: an incomplete one has no address, and solicitations are
counted while they are sent. -/
def Nbr.entry (n : Nbr) : Entry LlAddr where
  reach :=
    match n.state with
    | .incomplete => .incomplete n.nscount.toNat
    | .reachable => .reachable n.lladdr
    | .stale => .stale n.lladdr
    | .delay => .delay n.lladdr
    | .probe => .probe n.lladdr n.nscount.toNat
  isRouter := n.isrouter ≠ 0

/-- The limits of the implementation. -/
def limits : Limits := ⟨maxMulticastSolicit.toNat, maxUnicastSolicit.toNat⟩

/-- The periodic call is a timeout for the entry: its timer has expired, and when a solicitation
is to be sent there is room for it. -/
def Nbr.due (m : Moment) (n : Nbr) : Bool :=
  match n.state with
  | .incomplete => n.sendns.expired m.now && (m.free || decide (maxMulticastSolicit ≤ n.nscount))
  | .probe => n.sendns.expired m.now && (m.free || decide (maxUnicastSolicit ≤ n.nscount))
  | .reachable => n.reachable.expired m.now
  | .delay => n.reachable.expired m.now
  | .stale => false

/-- What an event is to the standard. -/
def Event.cause (m : Moment) (e : Event) (n : Option Nbr) : Option (Cause LlAddr) :=
  match e with
  | .na flags tllao =>
      some (.advertisement (flags &&& naFlagRouter ≠ 0) (flags &&& naFlagSolicited ≠ 0)
        (flags &&& naFlagOverride ≠ 0) tllao)
  | .ns sllao => some (.neighborSolicitation sllao)
  | .rs sllao => some (.routerSolicitation sllao)
  | .ra sllao => some (.routerAdvertisement sllao)
  | .output => some .packet
  | .periodic => if n.any (Nbr.due m) then some .timeout else none

/-- The entry that the standard asks for. An entry can be created only where there is a
place. -/
def standard (m : Moment) (e : Event) (n : Option Nbr) : Option (Entry LlAddr) :=
  match e.cause m n, n with
  | none, n => n.map Nbr.entry
  | some c, none => if m.placed then Entry.created c else none
  | some c, some n => n.entry.next limits c

/-- The state machine is followed. -/
def Conforms (m : Moment) (ipaddr : IpAddr) (e : Event) (n : Option Nbr) : Prop :=
  ∃ r, step m ipaddr e n = some r ∧ r.1.map Nbr.entry = standard m e n

/-- A router solicitation does not carry the address that an incomplete entry happens to have,
and one that carries a new address finds a place for it; an entry for which the last solicitation
was sent is looked at again only when its retransmission timer has expired. -/
def Regular (m : Moment) (e : Event) (n : Option Nbr) : Prop :=
  match e, n with
  | .rs sllao, some n =>
      if sllao = n.lladdr then n.state ≠ .incomplete else m.placed
  | .periodic, some n =>
      (n.state = .incomplete ∧ maxMulticastSolicit ≤ n.nscount ∨
        n.state = .probe ∧ maxUnicastSolicit ≤ n.nscount) → n.sendns.expired m.now
  | _, _ => True

variable {m : Moment} {ipaddr : IpAddr} {n : Nbr}

/-! ### Messages -/

/-- The address is taken over when the entry has none. -/
theorem entry_naInput_incomplete (h : n.state = .incomplete) (flags : UInt8)
    (tllao : Option LlAddr) :
    n.entry.next limits (.advertisement (flags &&& naFlagRouter ≠ 0)
      (flags &&& naFlagSolicited ≠ 0) (flags &&& naFlagOverride ≠ 0) tllao) =
        some (naInput m flags tllao n).1.entry := by
  cases tllao with
  | none => simp [Nbr.entry, Entry.next, naInput, h]
  | some a =>
      by_cases hsolicited : flags &&& naFlagSolicited = 0
      · simp [Nbr.entry, Entry.next, naInput, h, hsolicited]
      · simp [Nbr.entry, Entry.next, naInput, h, hsolicited]

theorem next_advertisement (h : n.state ≠ .incomplete) (router solicited override : Bool)
    (target : Option LlAddr) :
    n.entry.next limits (.advertisement router solicited override target) =
      some (n.entry.advertised n.lladdr router solicited override target) := by
  cases hstate : n.state with
  | incomplete => exact absurd hstate h
  | reachable => simp [Nbr.entry, Entry.next, hstate]
  | stale => simp [Nbr.entry, Entry.next, hstate]
  | delay => simp [Nbr.entry, Entry.next, hstate]
  | probe => simp [Nbr.entry, Entry.next, hstate]

/-- An advertisement that is not to override another address makes the entry stale at most. -/
theorem advertised_other (h : n.state ≠ .incomplete) {flags : UInt8} {tllao : Option LlAddr}
    (hoverride : flags &&& naFlagOverride = 0) (hother : tllao.any fun a => a ≠ n.lladdr)
    (router solicited : Bool) :
    n.entry.advertised n.lladdr router solicited false tllao =
      (naInput m flags tllao n).1.entry := by
  unfold naInput
  dsimp only
  rw [if_neg h, if_pos ⟨hoverride, hother⟩]
  unfold Entry.advertised
  rw [hother]
  cases hstate : n.state with
  | incomplete => exact absurd hstate h
  | reachable => simp [Nbr.entry, hstate]
  | stale => simp [Nbr.entry, hstate]
  | delay => simp [Nbr.entry, hstate]
  | probe => simp [Nbr.entry, hstate]

/-- Any other advertisement is accepted. -/
theorem advertised_accepted (h : n.state ≠ .incomplete) {flags : UInt8} {tllao : Option LlAddr}
    (haccepted : ¬(flags &&& naFlagOverride = 0 ∧ tllao.any fun a => a ≠ n.lladdr)) :
    n.entry.advertised n.lladdr (flags &&& naFlagRouter ≠ 0) (flags &&& naFlagSolicited ≠ 0)
        (flags &&& naFlagOverride ≠ 0) tllao =
      (naInput m flags tllao n).1.entry := by
  have hupdate : flags &&& naFlagOverride ≠ 0 ∨ (flags &&& naFlagOverride = 0 ∧ tllao.isSome ∧
      ¬tllao.any fun a => a ≠ n.lladdr) ∨ tllao.isNone := by
    by_cases hoverride : flags &&& naFlagOverride = 0
    · cases tllao with
      | none => simp
      | some a => simpa [hoverride] using haccepted
    · exact Or.inl hoverride
  have hnot : (!decide (flags &&& naFlagOverride ≠ 0) && tllao.any fun a => a ≠ n.lladdr) =
      false := by
    rw [← Bool.not_eq_true]
    simpa using haccepted
  unfold naInput Entry.advertised
  dsimp only
  rw [if_neg h, if_neg haccepted, if_pos hupdate, hnot, if_neg Bool.false_ne_true]
  by_cases hsolicited : flags &&& naFlagSolicited = 0
  · by_cases hother : (tllao.any fun a => a ≠ n.lladdr) = true
    · obtain ⟨a, rfl, ha⟩ := (Option.any_eq_true _ _).mp hother
      have hne : a ≠ n.lladdr := by simpa using ha
      simp [Nbr.entry, hsolicited, hne]
    · cases tllao with
      | none => simp [Nbr.entry, hsolicited]
      | some a =>
          have hsame : a = n.lladdr := by simpa using hother
          simp [Nbr.entry, hsolicited, hsame]
  · simp [Nbr.entry, hsolicited]

theorem entry_naInput (flags : UInt8) (tllao : Option LlAddr) (n : Nbr) :
    n.entry.next limits (.advertisement (flags &&& naFlagRouter ≠ 0)
      (flags &&& naFlagSolicited ≠ 0) (flags &&& naFlagOverride ≠ 0) tllao) =
        some (naInput m flags tllao n).1.entry := by
  by_cases h : n.state = .incomplete
  · exact entry_naInput_incomplete h flags tllao
  rw [next_advertisement h]
  by_cases hother : flags &&& naFlagOverride = 0 ∧ tllao.any fun a => a ≠ n.lladdr
  · rw [← advertised_other h hother.1 hother.2 (flags &&& naFlagRouter ≠ 0)
      (flags &&& naFlagSolicited ≠ 0)]
    simp [hother.1]
  · rw [advertised_accepted h hother]

/-- A source link-layer address is recorded. -/
theorem entry_nsInput (m : Moment) (ipaddr : IpAddr) (sllao : LlAddr) (n : Nbr) :
    n.entry.next limits (.neighborSolicitation sllao) =
      (nsInput m ipaddr sllao (some n)).map Nbr.entry := by
  cases hstate : n.state <;> by_cases hsame : sllao = n.lladdr <;>
    simp [Nbr.entry, Entry.next, Reachability.record, nsInput, hstate, hsame]

theorem entry_raInput (m : Moment) (ipaddr : IpAddr) (sllao : LlAddr) (n : Nbr) :
    n.entry.next limits (.routerAdvertisement sllao) =
      (raInput m ipaddr sllao (some n)).map Nbr.entry := by
  cases hstate : n.state <;> by_cases hsame : sllao = n.lladdr <;>
    simp [Nbr.entry, Entry.next, Reachability.record, raInput, hstate, hsame]

/-- A router solicitation with another address removes the entry and adds it again. -/
theorem entry_rsInput (m : Moment) (ipaddr : IpAddr) (sllao : LlAddr) (n : Nbr) :
    (∃ n', rsInput m ipaddr sllao (some n) = some n' ∧
      n'.map Nbr.entry = n.entry.next limits (.routerSolicitation sllao)) ↔
        if sllao = n.lladdr then n.state ≠ .incomplete else m.placed := by
  by_cases hsame : sllao = n.lladdr
  · cases hstate : n.state <;>
      simp [Nbr.entry, Entry.next, Reachability.record, rsInput, hstate, hsame]
  · cases hplaced : m.placed with
    | false => simp [rsInput, nbrAdd, hsame, hplaced]
    | true =>
        cases hstate : n.state <;>
          simp [Nbr.entry, Entry.next, Reachability.record, rsInput, nbrAdd, hstate, hsame, hplaced]

theorem entry_output (m : Moment) (ipaddr : IpAddr) (n : Nbr) :
    n.entry.next limits .packet = (output m ipaddr (some n)).1.map Nbr.entry := by
  cases hstate : n.state <;> simp [Nbr.entry, Entry.next, output, hstate]

/-! ### Timers -/

/-- A count below the limit is not at the end of its range. -/
theorem toNat_succ_of_lt {a b : UInt8} (h : ¬b ≤ a) :
    a.toNat < b.toNat ∧ (a + 1).toNat = a.toNat + 1 := by
  rw [UInt8.le_iff_toNat_le, not_le] at h
  have hb := b.toNat_lt
  refine ⟨h, ?_⟩
  rw [UInt8.toNat_add, UInt8.toNat_one]
  omega

theorem not_lt_of_le {a b : UInt8} (h : b ≤ a) : ¬a.toNat < b.toNat :=
  not_lt.mpr (UInt8.le_iff_toNat_le.mp h)

/-- The periodic call follows the timeouts unless the last solicitation is waited for. -/
theorem entry_neighborPeriodic (n : Nbr) :
    (neighborPeriodic m n).1.map Nbr.entry = standard m .periodic (some n) ↔
      Regular m .periodic (some n) := by
  cases hstate : n.state with
  | incomplete =>
      by_cases hlimit : maxMulticastSolicit ≤ n.nscount
      · have hcount := not_lt_of_le hlimit
        by_cases hexpired : n.sendns.expired m.now <;>
          simp [neighborPeriodic, standard, Event.cause, Regular, Nbr.due, Nbr.entry, Entry.next,
            limits, hstate, hlimit, hexpired, hcount]
      · obtain ⟨hcount, hsucc⟩ := toNat_succ_of_lt hlimit
        by_cases hexpired : n.sendns.expired m.now <;> by_cases hfree : m.free <;>
          simp [neighborPeriodic, standard, Event.cause, Regular, Nbr.due, Nbr.entry, Entry.next,
            limits, solicit, hstate, hlimit, hexpired, hfree, hcount, hsucc]
  | reachable =>
      by_cases hexpired : n.reachable.expired m.now <;>
        simp [neighborPeriodic, standard, Event.cause, Regular, Nbr.due, Nbr.entry, Entry.next,
          hstate, hexpired]
  | stale =>
      simp [neighborPeriodic, standard, Event.cause, Regular, Nbr.due, hstate]
  | delay =>
      by_cases hexpired : n.reachable.expired m.now <;>
        simp [neighborPeriodic, standard, Event.cause, Regular, Nbr.due, Nbr.entry, Entry.next,
          hstate, hexpired]
  | probe =>
      by_cases hlimit : maxUnicastSolicit ≤ n.nscount
      · have hcount := not_lt_of_le hlimit
        by_cases hexpired : n.sendns.expired m.now <;>
          simp [neighborPeriodic, standard, Event.cause, Regular, Nbr.due, Nbr.entry, Entry.next,
            limits, hstate, hlimit, hexpired, hcount]
      · obtain ⟨hcount, hsucc⟩ := toNat_succ_of_lt hlimit
        by_cases hexpired : n.sendns.expired m.now <;> by_cases hfree : m.free <;>
          simp [neighborPeriodic, standard, Event.cause, Regular, Nbr.due, Nbr.entry, Entry.next,
            limits, solicit, hstate, hlimit, hexpired, hfree, hcount, hsucc]

/-! ### One event -/

/-- Where there is no entry one is created as the standard asks for. -/
theorem conforms_none (m : Moment) (ipaddr : IpAddr) (e : Event) : Conforms m ipaddr e none := by
  cases e with
  | na flags tllao =>
      exact ⟨_, rfl, by simp [standard, Event.cause, Entry.created]⟩
  | ns sllao =>
      exact ⟨_, rfl, by
        cases h : m.placed <;>
          simp [standard, Event.cause, Entry.created, nsInput, nbrAdd, Nbr.entry, h]⟩
  | rs sllao =>
      exact ⟨_, rfl, by
        cases h : m.placed <;>
          simp [standard, Event.cause, Entry.created, nbrAdd, Nbr.entry, h]⟩
  | ra sllao =>
      exact ⟨_, rfl, by
        cases h : m.placed <;>
          simp [standard, Event.cause, Entry.created, raInput, nbrAdd, Nbr.entry, h]⟩
  | output =>
      exact ⟨_, rfl, by
        cases h : m.placed <;>
          simp [standard, Event.cause, Entry.created, output, nbrAdd, Nbr.entry, h]⟩
  | periodic =>
      exact ⟨_, rfl, by simp [standard, Event.cause]⟩

/-- The state machine is followed exactly in the regular cases. -/
theorem conforms_iff (m : Moment) (ipaddr : IpAddr) (e : Event) (n : Option Nbr) :
    Conforms m ipaddr e n ↔ Regular m e n := by
  cases n with
  | none =>
      have hregular : Regular m e none := by cases e <;> trivial
      exact iff_of_true (conforms_none m ipaddr e) hregular
  | some n =>
      cases e with
      | na flags tllao =>
          exact iff_of_true ⟨_, rfl, (entry_naInput flags tllao n).symm⟩ trivial
      | ns sllao => exact iff_of_true ⟨_, rfl, (entry_nsInput m ipaddr sllao n).symm⟩ trivial
      | rs sllao =>
          rw [Regular, ← entry_rsInput m ipaddr]
          simp [Conforms, step, standard, Event.cause]
      | ra sllao => exact iff_of_true ⟨_, rfl, (entry_raInput m ipaddr sllao n).symm⟩ trivial
      | output => exact iff_of_true ⟨_, rfl, (entry_output m ipaddr n).symm⟩ trivial
      | periodic =>
          rw [← entry_neighborPeriodic]
          simp [Conforms, step]

/-! ### Runs -/

/-- A neighbor, and how many solicitations were sent since its entry came to its state. -/
structure Watch where
  nbr : Option Nbr
  sent : Nat

/-- The entries are one entry in one state. -/
def sameState (n n' : Option Nbr) : Bool :=
  match n, n' with
  | some n, some n' => n.state = n'.state
  | _, _ => false

def Watch.next (w : Watch) (r : Option Nbr × Bool) : Watch :=
  ⟨r.1, (if sameState w.nbr r.1 then w.sent else 0) + r.2.toNat⟩

/-- A run of events; nothing when a null pointer is followed. -/
def run (ipaddr : IpAddr) : Watch → List (Moment × Event) → Option Watch
  | w, [] => some w
  | w, (m, e) :: es => (step m ipaddr e w.nbr).bind fun r => run ipaddr (w.next r) es

/-- The limit of the solicitations in a state; nothing where none are sent. -/
def NbrState.limit : NbrState → Option UInt8
  | .incomplete => some maxMulticastSolicit
  | .probe => some maxUnicastSolicit
  | _ => none

/-- The counter is the number of solicitations, and is within the limit. -/
def Watch.Counts (w : Watch) : Prop :=
  ∀ n ∈ w.nbr, ∀ k ∈ n.state.limit, w.sent = n.nscount.toNat ∧ n.nscount ≤ k

/-- At most as many solicitations as the limit says were sent. When it is reached the next
periodic call removes the entry; before, it sends one more when the timer has expired and there is
room. -/
def Watch.Bounded (w : Watch) : Prop :=
  ∀ n ∈ w.nbr, ∀ k ∈ n.state.limit, w.sent ≤ k.toNat ∧
    ∀ m, (w.sent = k.toNat → neighborPeriodic m n = (none, false)) ∧
      (w.sent < k.toNat → n.sendns.expired m.now → m.free →
        neighborPeriodic m n = (some (solicit m n), true))

/-- An event that sends nothing leaves an entry that sends solicitations as it is, or takes it
out of this state. -/
def Keeps (n : Nbr) (r : Option Nbr) : Prop :=
  ∀ n' ∈ r, n'.state.limit ≠ none → n'.state = n.state ∧ n'.nscount = n.nscount

theorem keeps_self (n : Nbr) : Keeps n (some n) := by
  rintro n' ⟨⟩ _
  exact ⟨rfl, rfl⟩

theorem keeps_naInput (flags : UInt8) (tllao : Option LlAddr) (n : Nbr) :
    Keeps n (some (naInput m flags tllao n).1) := by
  rintro n' ⟨⟩ hlimit
  revert hlimit
  unfold naInput
  dsimp only
  split_ifs <;> cases tllao <;> simp_all [NbrState.limit]

theorem keeps_nsInput (m : Moment) (ipaddr : IpAddr) (sllao : LlAddr) (n : Nbr) :
    Keeps n (nsInput m ipaddr sllao (some n)) := by
  unfold nsInput
  dsimp only
  split_ifs <;> simp_all [Keeps, NbrState.limit]

theorem keeps_rsInput {m : Moment} {sllao : LlAddr} {n : Nbr} {r : Option Nbr}
    (h : rsInput m ipaddr sllao (some n) = some r) : Keeps n r := by
  unfold rsInput nbrAdd at h
  dsimp only at h
  split_ifs at h <;> simp_all [Keeps, NbrState.limit] <;> simp [← h]

theorem keeps_raInput (m : Moment) (ipaddr : IpAddr) (sllao : LlAddr) (n : Nbr) :
    Keeps n (raInput m ipaddr sllao (some n)) := by
  unfold raInput
  dsimp only
  split_ifs <;> simp_all [Keeps, NbrState.limit]

theorem keeps_output (m : Moment) (ipaddr : IpAddr) (n : Nbr) :
    Keeps n (output m ipaddr (some n)).1 := by
  unfold output
  dsimp only
  split_ifs <;> simp_all [Keeps, NbrState.limit]

variable {w : Watch}

/-- The counter is right behind an event that sends nothing. -/
theorem Watch.Counts.keep (hw : w.Counts) {r : Option Nbr} (h : ∀ n ∈ w.nbr, Keeps n r)
    (hnew : w.nbr = none → ∀ n ∈ r, n.state.limit = none) : (w.next (r, false)).Counts := by
  rintro n' ⟨⟩ k hk
  cases hn : w.nbr with
  | none =>
      have hnone := hnew hn n' rfl
      rw [Option.mem_def, hnone] at hk
      simp at hk
  | some n =>
      rw [Option.mem_def] at hk
      obtain ⟨hstate, hcount⟩ := h n hn n' rfl (by simp [hk])
      obtain ⟨hsent, hle⟩ := hw n hn k (by rw [Option.mem_def, ← hstate, hk])
      have hsame : sameState (some n) (some n') = true := by simp [sameState, hstate]
      simp [Watch.next, hn, hsame, hsent, hcount, hle]

/-- An entry that a message creates is stale. -/
theorem limit_nbrAdd {isrouter : UInt8} {sllao : LlAddr} :
    ∀ n ∈ nbrAdd m ipaddr sllao isrouter .stale, n.state.limit = none := by
  intro n hn
  unfold nbrAdd at hn
  split_ifs at hn
  · obtain rfl := Option.some.inj hn
    rfl
  · simp at hn

theorem counts_output (hw : w.Counts) :
    (w.next (output m ipaddr w.nbr)).Counts := by
  cases hn : w.nbr with
  | none =>
      unfold output
      cases hadd : nbrAdd m ipaddr nullLladdr 0 .incomplete with
      | none => simp [Watch.Counts, Watch.next]
      | some n =>
          unfold nbrAdd at hadd
          split_ifs at hadd
          obtain rfl := Option.some.inj hadd
          simp [Watch.Counts, Watch.next, hn, sameState, NbrState.limit, maxMulticastSolicit]
  | some n =>
      have hsent : (output m ipaddr (some n)).2 = false := by
        unfold output
        dsimp only
        split_ifs <;> rfl
      have hkeep := hw.keep (r := (output m ipaddr (some n)).1)
        (by rintro n' hn'; rw [hn] at hn'; cases hn'; exact keeps_output m ipaddr n)
        (by simp [hn])
      rwa [← hsent] at hkeep

theorem counts_none (w : Watch) (b : Bool) : (w.next (none, b)).Counts := by
  simp [Watch.Counts, Watch.next]

theorem counts_same (hw : w.Counts) {n : Nbr} (hn : w.nbr = some n) :
    (w.next (some n, false)).Counts := by
  apply hw.keep
  · intro n' hn'
    rw [hn] at hn'
    cases hn'
    exact keeps_self n
  · simp [hn]

/-- An entry that comes to a state has sent nothing there. -/
theorem counts_enter {n n' : Nbr} (hn : w.nbr = some n) (hstate : n.state ≠ n'.state)
    (hcount : n'.nscount = 0) : (w.next (some n', false)).Counts := by
  rintro n' ⟨⟩ k hk
  simp [Watch.next, hn, sameState, hstate, hcount, UInt8.le_iff_toNat_le]

theorem counts_solicit (hw : w.Counts) {n : Nbr} (hn : w.nbr = some n) {k : UInt8}
    (hk : n.state.limit = some k) (hlt : ¬k ≤ n.nscount) :
    (w.next (some (solicit m n), true)).Counts := by
  obtain ⟨hcount, hsucc⟩ := toNat_succ_of_lt hlt
  obtain ⟨hsent, -⟩ := hw n hn k hk
  rintro n' ⟨⟩ k' hk'
  have hlimit : n.state.limit = some k' := hk'
  obtain rfl : k = k' := Option.some.inj (hk.symm.trans hlimit)
  have hsame : sameState w.nbr (some (solicit m n)) = true := by simp [hn, sameState, solicit]
  have hnext : (w.next (some (solicit m n), true)).sent = w.sent + 1 := by
    simp [Watch.next, hsame]
  have hnscount : (solicit m n).nscount.toNat = n.nscount.toNat + 1 := hsucc
  rw [hnext, UInt8.le_iff_toNat_le, hnscount]
  omega

theorem counts_periodic (hw : w.Counts) {n : Nbr} (hn : w.nbr = some n) :
    (w.next (neighborPeriodic m n)).Counts := by
  unfold neighborPeriodic
  cases hstate : n.state with
  | incomplete =>
      dsimp only
      split_ifs with hlimit
      · exact counts_none w false
      · exact counts_solicit hw hn (by rw [hstate]; rfl) hlimit
      · exact counts_same hw hn
  | reachable =>
      dsimp only
      split_ifs with hexpired
      · rintro n' ⟨⟩ k ⟨⟩
      · exact counts_same hw hn
  | stale => exact counts_same hw hn
  | delay =>
      dsimp only
      split_ifs with hexpired
      · exact counts_enter hn (by simp [hstate]) rfl
      · exact counts_same hw hn
  | probe =>
      dsimp only
      split_ifs with hlimit
      · exact counts_none w false
      · exact counts_solicit hw hn (by rw [hstate]; rfl) hlimit
      · exact counts_same hw hn

/-- The counter is right behind every event. -/
theorem counts_step (hw : w.Counts) {e : Event} {r : Option Nbr × Bool}
    (hr : step m ipaddr e w.nbr = some r) : (w.next r).Counts := by
  cases e with
  | na flags tllao =>
      obtain rfl := Option.some.inj hr
      apply hw.keep
      · intro n hn
        rw [Option.mem_def] at hn
        rw [hn]
        exact keeps_naInput flags tllao n
      · intro hn n' hn'
        rw [hn] at hn'
        simp at hn'
  | ns sllao =>
      obtain rfl := Option.some.inj hr
      apply hw.keep
      · intro n hn
        rw [Option.mem_def] at hn
        rw [hn]
        exact keeps_nsInput m ipaddr sllao n
      · intro hn
        rw [hn]
        exact limit_nbrAdd
  | rs sllao =>
      obtain ⟨n', hn', rfl⟩ := Option.map_eq_some_iff.mp hr
      apply hw.keep
      · intro n hn
        rw [Option.mem_def] at hn
        rw [hn] at hn'
        exact keeps_rsInput hn'
      · intro hn
        rw [hn] at hn'
        rw [← Option.some.inj hn']
        exact limit_nbrAdd
  | ra sllao =>
      obtain rfl := Option.some.inj hr
      apply hw.keep
      · intro n hn
        rw [Option.mem_def] at hn
        rw [hn]
        exact keeps_raInput m ipaddr sllao n
      · intro hn
        rw [hn]
        exact limit_nbrAdd
  | output =>
      obtain rfl := Option.some.inj hr
      exact counts_output hw
  | periodic =>
      cases hn : w.nbr with
      | none =>
          rw [hn] at hr
          obtain rfl := Option.some.inj hr
          exact counts_none w false
      | some n =>
          rw [hn] at hr
          obtain rfl := Option.some.inj hr
          exact counts_periodic hw hn

theorem counts_run {es : List (Moment × Event)} {w' : Watch} (hw : w.Counts)
    (hrun : run ipaddr w es = some w') : w'.Counts := by
  induction es generalizing w with
  | nil =>
      obtain rfl := Option.some.inj hrun
      exact hw
  | cons e es ih =>
      obtain ⟨r, hr, hrest⟩ := Option.bind_eq_some_iff.mp hrun
      exact ih (counts_step hw hr) hrest

theorem bounded_of_counts (hw : w.Counts) : w.Bounded := by
  intro n hn k hk
  obtain ⟨hsent, hle⟩ := hw n hn k hk
  rw [UInt8.le_iff_toNat_le] at hle
  refine ⟨by omega, fun m => ⟨fun hreached => ?_, fun hlt hexpired hfree => ?_⟩⟩
  · have hlimit : k ≤ n.nscount := by
      rw [UInt8.le_iff_toNat_le]
      omega
    cases hstate : n.state with
    | incomplete =>
        rw [hstate] at hk
        obtain rfl := Option.some.inj hk
        simp [neighborPeriodic, hstate, hlimit]
    | probe =>
        rw [hstate] at hk
        obtain rfl := Option.some.inj hk
        simp [neighborPeriodic, hstate, hlimit]
    | reachable => simp [hstate, NbrState.limit] at hk
    | stale => simp [hstate, NbrState.limit] at hk
    | delay => simp [hstate, NbrState.limit] at hk
  · have hlimit : ¬k ≤ n.nscount := by
      rw [UInt8.le_iff_toNat_le]
      omega
    cases hstate : n.state with
    | incomplete =>
        rw [hstate] at hk
        obtain rfl := Option.some.inj hk
        simp [neighborPeriodic, hstate, hlimit, hexpired, hfree]
    | probe =>
        rw [hstate] at hk
        obtain rfl := Option.some.inj hk
        simp [neighborPeriodic, hstate, hlimit, hexpired, hfree]
    | reachable => simp [hstate, NbrState.limit] at hk
    | stale => simp [hstate, NbrState.limit] at hk
    | delay => simp [hstate, NbrState.limit] at hk

/-- The state machine is followed exactly in the regular cases, and in every run the
solicitations end at their limit. -/
theorem nud_conformance (ipaddr : IpAddr) :
    (∀ m e n, Conforms m ipaddr e n ↔ Regular m e n) ∧
      ∀ es w, run ipaddr ⟨none, 0⟩ es = some w → w.Bounded := by
  refine ⟨fun m e n => conforms_iff m ipaddr e n, fun es w hrun => ?_⟩
  apply bounded_of_counts
  apply counts_run _ hrun
  simp [Watch.Counts]

/-- A packet, and periodic calls while nobody answers. -/
theorem nud_conformance_unanswered :
    ∃ w, run (Vector.replicate 16 1) ⟨none, 0⟩
        [(⟨0, true, true, 30000, 1000⟩, .output), (⟨1, true, true, 30000, 1000⟩, .periodic),
          (⟨2, true, true, 30000, 1000⟩, .periodic)] = some w ∧
      w.sent = 3 ∧ w.Bounded := by
  obtain ⟨w, hw, hsent⟩ : ∃ w, run (Vector.replicate 16 1) ⟨none, 0⟩
        [(⟨0, true, true, 30000, 1000⟩, .output), (⟨1, true, true, 30000, 1000⟩, .periodic),
          (⟨2, true, true, 30000, 1000⟩, .periodic)] = some w ∧ w.sent = 3 :=
    ⟨_, rfl, by decide +kernel⟩
  exact ⟨w, hw, hsent, (nud_conformance _).2 _ w hw⟩

/-- A neighbor to which the last probe has been sent in this very second. -/
def probed : Nbr where
  ipaddr := Vector.replicate 16 1
  lladdr := Vector.replicate 6 1
  reachable := ⟨0, 5⟩
  sendns := ⟨7, 1⟩
  nscount := 3
  isrouter := 0
  state := .probe

/-- The entry is removed before there was time for an answer. -/
theorem not_conforms_probed :
    ¬∀ (m : Moment) (ipaddr : IpAddr) (e : Event) (n : Option Nbr), Conforms m ipaddr e n := by
  intro h
  obtain ⟨r, hr, hentry⟩ := h ⟨7, true, true, 30000, 1000⟩ probed.ipaddr .periodic (some probed)
  obtain rfl := Option.some.inj hr
  revert hentry
  decide +kernel

end Calipso.Uip
