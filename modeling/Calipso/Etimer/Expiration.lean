import Calipso.Etimer.Timers
import Mathlib.Tactic.Ring

/-!
# What becomes of timers

No timer is twice on the list, the next expiration is the earliest one, and a callback is made once
for each time its timer is armed, not too early and not after the timer was stopped, provided that
the next expiration is only computed while no timer is overdue, and that a callback timer is not
armed again while its event is in the queue.
-/

namespace Calipso.Etimer

/-- What is left of the entries of a callback timer that was armed until `m`, or not: nothing when
a call comes too early, or for a timer that is not armed. -/
def armed : Option Int → List Entry → Option (Option Int)
  | m, [] => some m
  | _, .armed d :: es => armed (some d) es
  | _, .stopped :: es => armed none es
  | some d, .called time :: es => if d ≤ time then armed none es else none
  | none, .called _ :: _ => none

/-- The event of a callback timer. -/
def ctimerEvent (c : Nat) : Posted := .timer (some .ctimerProcess) (.ctimer c)

namespace State

variable (s : State)

/-- The time at which a timer expires. -/
def due (t : Id) : Int := (s.timer t).due

/-- The next expiration is the earliest one of the pending timers. -/
def Earliest : Prop :=
  s.timerlist ≠ [] → ∃ t ∈ s.timerlist, (s.nextExpiration.toNat : Int) = s.due t % 2 ^ 32 ∧
    ∀ u ∈ s.timerlist, s.due t ≤ s.due u

/-- What has to hold in every state: a callback timer that is armed is pending, or its event is in
the queue. -/
structure Sound : Prop where
  nodup : s.timerlist.Nodup
  earliest : s.Earliest
  calls : ∀ c, ∃ m, armed none (s.log c) = some m ∧
    (m ≠ none → .ctimer c ∈ s.timerlist ∨ ctimerEvent c ∈ s.queue)

/-- The timer is not overdue, and expires before the clock comes round. -/
def InTime (t : Id) : Prop := s.now ≤ s.due t ∧ s.due t < s.now + 2 ^ 32

end State

/-- The event stops the timer `t`. -/
def Event.Stops (t : Id) : Event → Prop
  | .stop n => t = .etimer n
  | .ctimerStop c => t = .ctimer c
  | _ => False

/-- The event is the exit of the process `p`. -/
def Event.Exits (p : Option Proc) : Event → Prop
  | .exit n => p = some (.user n)
  | _ => False

/-- No timer is lost in the step: one that is not pending any more was stopped, its process has
exited, or its event was posted. A poll leaves no timer that is due unless the queue is full. -/
structure Lossless (size : Nat) (s : State) (e : Event) : Prop where
  kept : ∀ t ∈ s.timerlist, t ∈ (e.step size s).timerlist ∨ e.Stops t ∨ e.Exits (s.timer t).p ∨
    .timer (s.timer t).p t ∈ (e.step size s).queue
  posted : e = .poll → s.polled = true → (e.step size s).queue.length < size →
    ∀ t ∈ (e.step size s).timerlist, (s.now : Int) < s.due t

/-- Every state of the run is sound, and no step loses a timer. -/
def SoundRun (size : Nat) (s : State) : List Event → Prop
  | [] => s.Sound
  | e :: es => (s.Sound ∧ Lossless size s e) ∧ SoundRun size (e.step size s) es

/-! ### The condition -/

/-- All pending timers but `t` are in time. -/
def State.OthersInTime (s : State) (t : Id) : Prop := ∀ u ∈ s.timerlist, u ≠ t → s.InTime u

/-- The calls come from a process; the next expiration is computed while all pending timers are in
time; a callback timer is armed again when its event is not in the queue, and reset when it has
expired; the exit of a process does not take the earliest timer away; a poll is not so late that
the clock has come round. -/
def Event.Regular (size : Nat) (s : State) : Event → Prop
  | .set n _ p => p ≠ none ∧ s.OthersInTime (.etimer n)
  | .restart n p => p ≠ none ∧ s.OthersInTime (.etimer n)
  | .reset n p =>
    p ≠ none ∧ s.OthersInTime (.etimer n) ∧
      s.now ≤ s.due (.etimer n) + (s.timer (.etimer n)).interval.toNat ∧
      s.due (.etimer n) + (s.timer (.etimer n)).interval.toNat < s.now + 2 ^ 32
  | .adjust n d =>
    s.OthersInTime (.etimer n) ∧
      (.etimer n ∈ s.timerlist → s.now ≤ s.due (.etimer n) + d ∧ s.due (.etimer n) + d < s.now + 2 ^ 32)
  | .stop n => .etimer n ∈ s.timerlist → s.OthersInTime (.etimer n)
  | .ctimerSet c _ => ctimerEvent c ∉ s.queue ∧ s.OthersInTime (.ctimer c)
  | .ctimerRestart c => ctimerEvent c ∉ s.queue ∧ s.OthersInTime (.ctimer c)
  | .ctimerReset c =>
    (ctimerEvent c ∉ s.queue ∧ s.OthersInTime (.ctimer c)) ∧ s.due (.ctimer c) ≤ s.now ∧
      s.now ≤ s.due (.ctimer c) + (s.timer (.ctimer c)).interval.toNat
  | .ctimerStop c => .ctimer c ∈ s.timerlist → s.OthersInTime (.ctimer c)
  | .poll =>
    s.polled = true → (∀ t ∈ s.timerlist, (s.now : Int) < (s.timer t).begun + (2 ^ 32 - 1)) ∧
      (s.queue.length < size → ∀ t ∈ s.timerlist.find? s.expired, s.OthersInTime t)
  | .exit n =>
    (∃ u ∈ s.timerlist, (s.timer u).p ≠ some (.user n)) →
      ∀ t ∈ s.timerlist, ∃ u ∈ s.timerlist, (s.timer u).p ≠ some (.user n) ∧ s.due u ≤ s.due t
  | _ => True

/-- Every event of the run is regular where it happens. -/
def Regular (size : Nat) (s : State) : List Event → Prop
  | [] => True
  | e :: es => e.Regular size s ∧ Regular size (e.step size s) es

instance (s : State) (t : Id) : Decidable (s.OthersInTime t) := by
  unfold State.OthersInTime State.InTime
  infer_instance

instance (size : Nat) (s : State) : (e : Event) → Decidable (e.Regular size s)
  | .set .. => by unfold Event.Regular; infer_instance
  | .restart .. => by unfold Event.Regular; infer_instance
  | .reset .. => by unfold Event.Regular; infer_instance
  | .adjust .. => by unfold Event.Regular; infer_instance
  | .stop .. => by unfold Event.Regular; infer_instance
  | .ctimerSet .. => by unfold Event.Regular; infer_instance
  | .ctimerRestart .. => by unfold Event.Regular; infer_instance
  | .ctimerReset .. => by unfold Event.Regular; infer_instance
  | .ctimerStop .. => by unfold Event.Regular; infer_instance
  | .poll => by unfold Event.Regular; infer_instance
  | .exit .. => by unfold Event.Regular; infer_instance
  | .tick => .isTrue trivial
  | .requestPoll => .isTrue trivial
  | .postOther => .isTrue trivial
  | .deliver => .isTrue trivial

instance decidableRegular (size : Nat) :
    (s : State) → (es : List Event) → Decidable (Regular size s es)
  | _, [] => .isTrue trivial
  | s, e :: es =>
    have := decidableRegular size (e.step size s) es
    inferInstanceAs (Decidable (_ ∧ _))

/-! ### The next expiration -/

variable {s : State} {t u : Id} {size : Nat}

/-- The least of some numbers. -/
theorem foldl_least (g : Id → UInt32) (l : List Id) (d : UInt32) :
    let r := l.foldl (fun d u => if g u < d then g u else d) d
    (r = d ∨ ∃ u ∈ l, r = g u) ∧ r ≤ d ∧ ∀ u ∈ l, r ≤ g u := by
  induction l generalizing d with
  | nil => exact ⟨.inl rfl, UInt32.le_refl _, by simp⟩
  | cons v l ih =>
      obtain ⟨hmem, hle, hall⟩ := ih (if g v < d then g v else d)
      dsimp only [List.foldl_cons]
      by_cases hlt : g v < d
      · rw [if_pos hlt] at hmem hle hall ⊢
        refine ⟨.inr ?_, UInt32.le_trans hle (UInt32.le_of_lt hlt), ?_⟩
        · rcases hmem with heq | ⟨u, hu, heq⟩
          · exact ⟨v, List.mem_cons_self, heq⟩
          · exact ⟨u, List.mem_cons_of_mem _ hu, heq⟩
        · intro u hu
          rcases List.mem_cons.mp hu with rfl | hu
          · exact hle
          · exact hall u hu
      · rw [if_neg hlt] at hmem hle hall ⊢
        refine ⟨hmem.imp id fun ⟨u, hu, heq⟩ => ⟨u, List.mem_cons_of_mem _ hu, heq⟩, hle, ?_⟩
        intro u hu
        rcases List.mem_cons.mp hu with rfl | hu
        · exact UInt32.le_trans hle (UInt32.not_lt.mp hlt)
        · exact hall u hu

/-- `start` is the time at which a timer begins, on the clock. -/
def State.Started (s : State) : Prop :=
  ∀ t, ((s.timer t).start.toNat : Int) = (s.timer t).begun % 2 ^ 32

theorem toNat_clockTime (s : State) : s.clockTime.toNat = s.now % 2 ^ 32 := UInt32.toNat_ofNat'

theorem toNat_tdist (hstart : s.Started) (h : s.InTime t) :
    ((s.tdist t).toNat : Int) = s.due t - s.now := by
  have hclock := toNat_clockTime s
  have hbegun := hstart t
  obtain ⟨hle, hlt⟩ := h
  have hdue : s.due t = (s.timer t).begun + (s.timer t).interval.toNat := rfl
  rw [State.tdist, UInt32.toNat_sub, UInt32.toNat_add, hclock]
  omega

theorem earliest_updateTime (hstart : s.Started) (h : ∀ u ∈ s.timerlist, s.InTime u) :
    s.updateTime.Earliest := by
  cases hlist : s.timerlist with
  | nil =>
      have hnil : s.updateTime.timerlist = [] := by
        rw [State.updateTime, hlist]
      intro hne
      exact absurd hnil hne
  | cons t ts =>
      rw [hlist] at h
      obtain ⟨hmem, hle, hall⟩ := foldl_least s.tdist ts (s.tdist t)
      generalize hr : ts.foldl (fun d u => if s.tdist u < d then s.tdist u else d) (s.tdist t) = r
        at hmem hle hall
      have heq : s.updateTime = { s with nextExpiration := s.clockTime + r } := by
        rw [State.updateTime, hlist, ← hr]
      rw [heq]
      intro _
      show ∃ t ∈ s.timerlist, _ ∧ ∀ u ∈ s.timerlist, _
      rw [hlist]
      obtain ⟨v, hv, hmin⟩ : ∃ v ∈ t :: ts, r = s.tdist v := by
        rcases hmem with heq | ⟨v, hv, heq⟩
        · exact ⟨t, List.mem_cons_self, heq⟩
        · exact ⟨v, List.mem_cons_of_mem _ hv, heq⟩
      have hleast : ∀ u ∈ t :: ts, r ≤ s.tdist u := by
        intro u hu
        rcases List.mem_cons.mp hu with rfl | hu
        · exact hle
        · exact hall u hu
      refine ⟨v, hv, ?_, ?_⟩
      · have hdist := toNat_tdist hstart (h v hv)
        have hclock := toNat_clockTime s
        show ((s.clockTime + r).toNat : Int) = s.due v % 2 ^ 32
        rw [hmin, UInt32.toNat_add, hclock]
        omega
      · intro u hu
        have hdist := toNat_tdist hstart (h v hv)
        have hdist' := toNat_tdist hstart (h u hu)
        have hle := UInt32.le_iff_toNat_le.mp (hleast u hu)
        rw [hmin] at hle
        show s.due v ≤ s.due u
        omega

/-- Only the next expiration is computed. -/
theorem updateTime_eq (s : State) : ∃ x, s.updateTime = { s with nextExpiration := x } := by
  unfold State.updateTime
  cases s.timerlist with
  | nil => exact ⟨0, rfl⟩
  | cons t ts => exact ⟨_, rfl⟩

/-- An expired timer is due when it has begun. -/
theorem due_of_expired (hstart : s.Started) (hbegun : (s.timer t).begun ≤ s.now)
    (h : s.expired t = true) : s.due t ≤ s.now := by
  have hclock := toNat_clockTime s
  have hs := hstart t
  have hdue : s.due t = (s.timer t).begun + (s.timer t).interval.toNat := rfl
  rw [State.expired, decide_eq_true_iff, UInt32.lt_iff_toNat_lt, UInt32.toNat_add,
    UInt32.toNat_sub, hclock, UInt32.toNat_one] at h
  omega

/-- A timer that is due has expired, unless the clock has come round. -/
theorem expired_of_due (hstart : s.Started)
    (hlate : (s.now : Int) < (s.timer t).begun + (2 ^ 32 - 1)) (h : s.due t ≤ s.now) :
    s.expired t = true := by
  have hclock := toNat_clockTime s
  have hs := hstart t
  have hdue : s.due t = (s.timer t).begun + (s.timer t).interval.toNat := rfl
  rw [State.expired, decide_eq_true_iff, UInt32.lt_iff_toNat_lt, UInt32.toNat_add,
    UInt32.toNat_sub, hclock, UInt32.toNat_one]
  omega

/-! ### The invariant -/

/-- What holds of the timers besides the next expiration. -/
structure Core (s : State) : Prop where
  nodup : s.timerlist.Nodup
  start : s.Started
  owned : ∀ t ∈ s.timerlist, (s.timer t).p ≠ none
  ctimers : ∀ c, .ctimer c ∈ s.timerlist → (s.timer (.ctimer c)).p = some .ctimerProcess ∧
    (s.timer (.ctimer c)).begun ≤ s.now ∧ ctimerEvent c ∉ s.queue
  listed : s.ctimerList.Nodup
  calls : ∀ c, ∃ m, armed none (s.log c) = some m ∧ (m.isSome = true ↔ c ∈ s.ctimerList) ∧
    ∀ d ∈ m, .ctimer c ∈ s.timerlist ∧ s.due (.ctimer c) = d ∨
      .ctimer c ∉ s.timerlist ∧ ctimerEvent c ∈ s.queue ∧ d ≤ s.now

theorem Core.sound (h : Core s) (hearliest : s.Earliest) : s.Sound := by
  refine ⟨h.nodup, hearliest, ?_⟩
  intro c
  obtain ⟨m, hlog, -, hm⟩ := h.calls c
  refine ⟨m, hlog, ?_⟩
  intro hne
  obtain ⟨d, rfl⟩ := Option.ne_none_iff_exists'.mp hne
  rcases hm d rfl with hpending | hposted
  · exact .inl hpending.1
  · exact .inr hposted.2.1

theorem Core.updateTime (h : Core s) : Core s.updateTime := by
  obtain ⟨x, hx⟩ := updateTime_eq s
  rw [hx]
  exact ⟨h.nodup, h.start, h.owned, h.ctimers, h.listed, h.calls⟩

theorem armed_append {m m' : Option Int} {l : List Entry} (h : armed m l = some m') (e : Entry) :
    armed m (l ++ [e]) = armed m' [e] := by
  induction l generalizing m with
  | nil =>
      obtain rfl := Option.some.inj h
      rfl
  | cons e' l ih =>
      rw [List.cons_append]
      cases e' with
      | armed d => exact ih h
      | stopped => exact ih h
      | called time =>
          cases m with
          | none => cases h
          | some d =>
              by_cases hd : d ≤ time
              · rw [armed, if_pos hd] at h
                rw [armed, if_pos hd]
                exact ih h
              · rw [armed, if_neg hd] at h
                cases h

/-- The timer `t` is on the list and set to `e`. -/
def State.put (s : State) (t : Id) (e : Timer) : State :=
  { s with
    polled := true
    timer := Function.update s.timer t e
    timerlist := if t ∈ s.timerlist then s.timerlist else t :: s.timerlist }

theorem mem_put {e : Timer} : u ∈ (s.put t e).timerlist ↔ u = t ∨ u ∈ s.timerlist := by
  unfold State.put
  dsimp only
  split_ifs with ht
  · constructor
    · exact .inr
    · rintro (rfl | hu)
      · exact ht
      · exact hu
  · exact List.mem_cons

/-- A timer that is pending belongs to a process, so `add_timer` finds it. -/
theorem addTimer_eq (h : Core s) (t : Id) (f : Timer → Timer) (hf : ∀ e, (f e).p = e.p)
    (p : Option Proc) :
    (s.modify t f).addTimer t p = (s.put t { f (s.timer t) with p := p }).updateTime := by
  have hlisted : (((s.modify t f).timer t).p ≠ none ∧ t ∈ s.timerlist) ↔ t ∈ s.timerlist := by
    refine ⟨fun hboth => hboth.2, fun ht => ⟨?_, ht⟩⟩
    rw [State.modify]
    dsimp only
    rw [Function.update_self, hf]
    exact h.owned t ht
  have htimer : Function.update (Function.update s.timer t (f (s.timer t))) t
      { f (s.timer t) with p := p } = Function.update s.timer t { f (s.timer t) with p := p } :=
    Function.update_idem _ _ _
  unfold State.addTimer
  dsimp only
  by_cases ht : t ∈ s.timerlist
  · have hpos : ((s.modify t f).timer t).p ≠ none ∧ t ∈ (s.modify t f).timerlist := hlisted.mpr ht
    rw [if_pos hpos, State.put, if_pos ht]
    simp only [State.modify, Function.update_self, htimer]
  · have hneg : ¬ (((s.modify t f).timer t).p ≠ none ∧ t ∈ (s.modify t f).timerlist) :=
      mt hlisted.mp ht
    rw [if_neg hneg, State.put, if_neg ht]
    simp only [State.modify, Function.update_self, htimer]

theorem nodup_put {e : Timer} (h : Core s) : (s.put t e).timerlist.Nodup := by
  unfold State.put
  dsimp only
  split_ifs with ht
  · exact h.nodup
  · exact List.nodup_cons.mpr ⟨ht, h.nodup⟩

theorem started_put {e : Timer} (h : Core s) (he : (e.start.toNat : Int) = e.begun % 2 ^ 32) :
    (s.put t e).Started := by
  intro u
  by_cases hu : u = t
  · subst hu
    simpa [State.put] using he
  · simpa [State.put, Function.update_of_ne hu] using h.start u

theorem owned_put {e : Timer} (h : Core s) (he : e.p ≠ none) :
    ∀ u ∈ (s.put t e).timerlist, ((s.put t e).timer u).p ≠ none := by
  intro u hu
  by_cases hut : u = t
  · subst hut
    simpa [State.put] using he
  · have hold := h.owned u ((mem_put.mp hu).resolve_left hut)
    simpa [State.put, Function.update_of_ne hut] using hold

/-- The next expiration when a timer was set in time. -/
theorem earliest_put {e : Timer} (h : Core s) (he : (e.start.toNat : Int) = e.begun % 2 ^ 32)
    (hothers : s.OthersInTime t) (hle : s.now ≤ e.due) (hlt : e.due < s.now + 2 ^ 32) :
    (s.put t e).updateTime.Earliest := by
  apply earliest_updateTime (started_put h he)
  intro u hu
  by_cases hut : u = t
  · subst hut
    simpa [State.put, State.InTime, State.due] using And.intro hle hlt
  · have hold := hothers u ((mem_put.mp hu).resolve_left hut) hut
    simpa [State.put, State.InTime, State.due, Function.update_of_ne hut] using hold

/-- The timer of a process is set. -/
theorem core_put_etimer {e : Timer} {n : Nat} (h : Core s)
    (he : (e.start.toNat : Int) = e.begun % 2 ^ 32) (hp : e.p ≠ none) :
    Core (s.put (.etimer n) e) := by
  have hne : ∀ c, Id.ctimer c ≠ .etimer n := by simp
  have hmem : ∀ c, .ctimer c ∈ (s.put (.etimer n) e).timerlist ↔ .ctimer c ∈ s.timerlist := by
    intro c
    rw [mem_put]
    simp
  have htimer : ∀ c, (s.put (.etimer n) e).timer (.ctimer c) = s.timer (.ctimer c) :=
    fun c => Function.update_of_ne (hne c) e s.timer
  refine ⟨nodup_put h, started_put h he, owned_put h hp, ?_, h.listed, ?_⟩
  · intro c hc
    rw [htimer]
    exact h.ctimers c ((hmem c).mp hc)
  · intro c
    obtain ⟨m, hlog, hlist, hm⟩ := h.calls c
    refine ⟨m, hlog, hlist, ?_⟩
    intro d hd
    rw [hmem, State.due, htimer]
    exact hm d hd

/-- A callback timer is armed. -/
theorem core_arm {e : Timer} {c : Nat} (h : Core s)
    (he : (e.start.toNat : Int) = e.begun % 2 ^ 32) (hp : e.p = some .ctimerProcess)
    (hbegun : e.begun ≤ s.now) (hqueue : ctimerEvent c ∉ s.queue) :
    Core ((s.put (.ctimer c) e).arm c) := by
  have htimer : ∀ b, b ≠ c → (s.put (.ctimer c) e).timer (.ctimer b) = s.timer (.ctimer b) := by
    intro b hb
    have hne : Id.ctimer b ≠ .ctimer c := by simpa using hb
    exact Function.update_of_ne hne e s.timer
  have hself : (s.put (.ctimer c) e).timer (.ctimer c) = e := by
    show Function.update s.timer (Id.ctimer c) e (.ctimer c) = e
    exact Function.update_self _ _ _
  have hmem : ∀ b, b ≠ c →
      (.ctimer b ∈ (s.put (.ctimer c) e).timerlist ↔ .ctimer b ∈ s.timerlist) := by
    intro b hb
    rw [mem_put]
    simp [hb]
  refine ⟨nodup_put (e := e) h, started_put h he, owned_put h (by simp [hp]), ?_, ?_, ?_⟩
  · intro b hb
    by_cases hbc : b = c
    · subst hbc
      show ((s.put (.ctimer b) e).timer (.ctimer b)).p = _ ∧
        ((s.put (.ctimer b) e).timer (.ctimer b)).begun ≤ s.now ∧ _
      rw [hself]
      exact ⟨hp, hbegun, hqueue⟩
    · show ((s.put (.ctimer c) e).timer (.ctimer b)).p = _ ∧
        ((s.put (.ctimer c) e).timer (.ctimer b)).begun ≤ s.now ∧ _
      rw [htimer b hbc]
      exact h.ctimers b ((hmem b hbc).mp hb)
  · show (s.ctimerList.erase c ++ [c]).Nodup
    rw [List.nodup_append]
    refine ⟨h.listed.erase c, by simp, ?_⟩
    rintro b hb d hd rfl
    obtain rfl : b = c := by simpa using hd
    exact h.listed.not_mem_erase hb
  · intro b
    obtain ⟨m, hlog, hlist, hm⟩ := h.calls b
    by_cases hbc : b = c
    · subst hbc
      refine ⟨some e.due, ?_, ?_, ?_⟩
      · show armed none (Function.update s.log b (s.log b ++ [_]) b) = _
        rw [Function.update_self, armed_append hlog, hself]
        rfl
      · simp [State.arm]
      · rintro d ⟨⟩
        left
        refine ⟨(mem_put (e := e)).mpr (.inl rfl), ?_⟩
        show ((s.put (.ctimer b) e).timer (.ctimer b)).due = _
        rw [hself]
    · refine ⟨m, ?_, ?_, ?_⟩
      · show armed none (Function.update s.log c _ b) = _
        rwa [Function.update_of_ne hbc]
      · show _ ↔ b ∈ s.ctimerList.erase c ++ [c]
        rw [hlist, List.mem_append, List.mem_erase_of_ne hbc]
        simp [hbc]
      · intro d hd
        show .ctimer b ∈ (s.put (.ctimer c) e).timerlist ∧
          ((s.put (.ctimer c) e).timer (.ctimer b)).due = d ∨
          .ctimer b ∉ (s.put (.ctimer c) e).timerlist ∧ _
        rw [hmem b hbc, htimer b hbc]
        exact hm d hd

/-- A timer that is stopped is not pending; the others are. -/
theorem etimerStop_timerlist (s : State) (t : Id) :
    (s.etimerStop t).timerlist = s.timerlist.erase t := by
  unfold State.etimerStop
  dsimp only
  by_cases ht : t ∈ s.timerlist
  · obtain ⟨x, hx⟩ := updateTime_eq { s with timerlist := s.timerlist.erase t }
    rw [if_pos ht, hx]
    rfl
  · rw [if_neg ht, List.erase_of_not_mem ht]
    rfl

/-- What `etimer_stop` leaves alone. -/
theorem etimerStop_frame (s : State) (t : Id) :
    (s.etimerStop t).timer = Function.update s.timer t { s.timer t with p := none } ∧
      (s.etimerStop t).now = s.now ∧ (s.etimerStop t).queue = s.queue ∧
      (s.etimerStop t).ctimerList = s.ctimerList ∧ (s.etimerStop t).log = s.log := by
  unfold State.etimerStop
  dsimp only
  by_cases ht : t ∈ s.timerlist
  · obtain ⟨x, hx⟩ := updateTime_eq { s with timerlist := s.timerlist.erase t }
    rw [if_pos ht, hx]
    exact ⟨rfl, rfl, rfl, rfl, rfl⟩
  · rw [if_neg ht]
    exact ⟨rfl, rfl, rfl, rfl, rfl⟩

theorem earliest_congr {s' : State} (hlist : s'.timerlist = s.timerlist)
    (hnext : s'.nextExpiration = s.nextExpiration) (hdue : ∀ u, s'.due u = s.due u)
    (h : s.Earliest) : s'.Earliest := by
  intro hne
  rw [hlist] at hne
  obtain ⟨t, ht, heq, hall⟩ := h hne
  refine ⟨t, by rwa [hlist], by rw [hnext, hdue, heq], ?_⟩
  intro u hu
  rw [hdue, hdue]
  exact hall u (by rwa [hlist] at hu)

theorem due_update (s : State) (t u : Id) (p : Option Proc) :
    (Function.update s.timer t { s.timer t with p := p } u).due = s.due u := by
  by_cases hu : u = t
  · subst hu
    rw [Function.update_self]
    rfl
  · rw [Function.update_of_ne hu]
    rfl

theorem earliest_etimerStop (h : Core s) (hearliest : s.Earliest)
    (hothers : t ∈ s.timerlist → s.OthersInTime t) : (s.etimerStop t).Earliest := by
  unfold State.etimerStop
  dsimp only
  by_cases ht : t ∈ s.timerlist
  · rw [if_pos ht]
    have hupdate : ({ s with timerlist := s.timerlist.erase t } : State).updateTime.Earliest := by
      apply earliest_updateTime (s := { s with timerlist := s.timerlist.erase t }) h.start
      intro u hu
      have hmem := h.nodup.mem_erase_iff.mp hu
      exact hothers ht u hmem.2 hmem.1
    refine earliest_congr (s := ({ s with timerlist := s.timerlist.erase t } : State).updateTime)
      rfl rfl ?_ hupdate
    intro u
    exact due_update ({ s with timerlist := s.timerlist.erase t } : State).updateTime t u none
  · rw [if_neg ht]
    exact earliest_congr (s := s) rfl rfl (fun u => due_update s t u none) hearliest

/-- The timers that stay pending when `t` is taken from the list. -/
theorem core_stopped (s' : State) (h : Core s) (hlist : s'.timerlist = s.timerlist.erase t)
    (htimer : s'.timer = Function.update s.timer t { s.timer t with p := none }) :
    s'.timerlist.Nodup ∧ s'.Started ∧ (∀ u ∈ s'.timerlist, (s'.timer u).p ≠ none) ∧
      ∀ u ≠ t, (u ∈ s'.timerlist ↔ u ∈ s.timerlist) ∧ s'.timer u = s.timer u := by
  refine ⟨?_, ?_, ?_, ?_⟩
  · rw [hlist]
    exact h.nodup.erase t
  · intro u
    rw [htimer]
    by_cases hu : u = t
    · subst hu
      rw [Function.update_self]
      exact h.start u
    · rw [Function.update_of_ne hu]
      exact h.start u
  · intro u hu
    rw [hlist, h.nodup.mem_erase_iff] at hu
    rw [htimer, Function.update_of_ne hu.1]
    exact h.owned u hu.2
  · intro u hu
    rw [hlist, htimer, Function.update_of_ne hu, h.nodup.mem_erase_iff]
    simp [hu]

theorem core_stop_etimer {n : Nat} (h : Core s) : Core (s.etimerStop (.etimer n)) := by
  obtain ⟨htimer, hnow, hqueue, hctimers, hlog⟩ := etimerStop_frame s (.etimer n)
  obtain ⟨hnodup, hstart, howned, hothers⟩ :=
    core_stopped _ h (etimerStop_timerlist _ _) htimer
  refine ⟨hnodup, hstart, howned, ?_, by rw [hctimers]; exact h.listed, ?_⟩
  · intro c hc
    obtain ⟨hmem, heq⟩ := hothers (.ctimer c) (by simp)
    rw [heq, hnow, hqueue]
    exact h.ctimers c (hmem.mp hc)
  · intro c
    obtain ⟨hmem, heq⟩ := hothers (.ctimer c) (by simp)
    rw [State.due, heq, hmem, hnow, hqueue, hctimers, hlog]
    exact h.calls c

theorem core_stop_ctimer {c : Nat} (h : Core s) : Core (s.ctimerStop c) := by
  obtain ⟨htimer, hnow, hqueue, hctimers, hlog⟩ := etimerStop_frame s (.ctimer c)
  obtain ⟨hnodup, hstart, howned, hothers⟩ :=
    core_stopped _ h (etimerStop_timerlist _ _) htimer
  have hnot : .ctimer c ∉ (s.etimerStop (.ctimer c)).timerlist := by
    rw [etimerStop_timerlist]
    exact h.nodup.not_mem_erase
  refine ⟨hnodup, hstart, howned, ?_, ?_, ?_⟩
  · intro b hb
    have hbc : b ≠ c := by
      rintro rfl
      exact hnot hb
    obtain ⟨hmem, heq⟩ := hothers (.ctimer b) (by simpa using hbc)
    show ((s.etimerStop (.ctimer c)).timer (.ctimer b)).p = _ ∧
      ((s.etimerStop (.ctimer c)).timer (.ctimer b)).begun ≤ (s.etimerStop (.ctimer c)).now ∧
      _ ∉ (s.etimerStop (.ctimer c)).queue
    rw [heq, hnow, hqueue]
    exact h.ctimers b (hmem.mp hb)
  · show ((s.etimerStop (.ctimer c)).ctimerList.erase c).Nodup
    rw [hctimers]
    exact h.listed.erase c
  · intro b
    obtain ⟨m, hm⟩ := h.calls b
    show ∃ m, armed none (Function.update (s.etimerStop (.ctimer c)).log c
        ((s.etimerStop (.ctimer c)).log c ++ [.stopped]) b) = some m ∧
      (m.isSome = true ↔ b ∈ (s.etimerStop (.ctimer c)).ctimerList.erase c) ∧
      ∀ d ∈ m, .ctimer b ∈ (s.etimerStop (.ctimer c)).timerlist ∧
        (s.etimerStop (.ctimer c)).due (.ctimer b) = d ∨
        .ctimer b ∉ (s.etimerStop (.ctimer c)).timerlist ∧
          ctimerEvent b ∈ (s.etimerStop (.ctimer c)).queue ∧ d ≤ (s.etimerStop (.ctimer c)).now
    rw [hlog, hctimers]
    by_cases hbc : b = c
    · subst hbc
      refine ⟨none, ?_, ?_, by simp⟩
      · rw [Function.update_self, armed_append hm.1]
        rfl
      · simp [h.listed.not_mem_erase]
    · obtain ⟨hmem, heq⟩ := hothers (.ctimer b) (by simpa using hbc)
      rw [Function.update_of_ne hbc, State.due, heq, hmem, hnow, hqueue,
        List.mem_erase_of_ne hbc]
      exact ⟨m, hm⟩

/-- An expired timer is posted. -/
theorem core_post (h : Core s) (ht : t ∈ s.timerlist) (hexpired : s.expired t = true) :
    Core (s.post t) := by
  apply Core.updateTime
  obtain ⟨hnodup, hstart, howned, hothers⟩ :=
    core_stopped (({ s with
      queue := s.queue ++ [.timer (s.timer t).p t]
      timerlist := s.timerlist.erase t } : State).modify t fun e => { e with p := none }) h rfl rfl
  have hnot : t ∉ s.timerlist.erase t := h.nodup.not_mem_erase
  refine ⟨hnodup, hstart, howned, ?_, h.listed, ?_⟩
  · intro c hc
    have hne : Id.ctimer c ≠ t := by
      rintro rfl
      exact hnot hc
    obtain ⟨hmem, heq⟩ := hothers _ hne
    obtain ⟨hp, hbegun, hqueue⟩ := h.ctimers c (hmem.mp hc)
    rw [heq]
    refine ⟨hp, hbegun, ?_⟩
    intro hin
    rcases List.mem_append.mp hin with hin | hin
    · exact hqueue hin
    · have heq' : ctimerEvent c = .timer (s.timer t).p t := List.mem_singleton.mp hin
      exact hne (Posted.timer.inj heq').2
  · intro c
    obtain ⟨m, hlog, hlisted, hm⟩ := h.calls c
    refine ⟨m, hlog, hlisted, ?_⟩
    intro d hd
    by_cases hct : .ctimer c = t
    · subst hct
      right
      obtain ⟨hp, hbegun, hqueue⟩ := h.ctimers c ht
      refine ⟨hnot, ?_, ?_⟩
      · apply List.mem_append_right
        rw [List.mem_singleton, hp]
        rfl
      · rcases hm d hd with hpending | hposted
        · rw [← hpending.2]
          exact due_of_expired h.start hbegun hexpired
        · exact absurd ht hposted.1
    · obtain ⟨hmem, heq⟩ := hothers _ hct
      rw [hmem, State.due, heq]
      rcases hm d hd with hpending | ⟨hout, hin, hle⟩
      · exact .inl hpending
      · exact .inr ⟨hout, List.mem_append_left _ hin, hle⟩

/-- The state behind `post` before the next expiration is computed. -/
theorem post_frame (s : State) (t : Id) :
    (s.post t).timerlist = s.timerlist.erase t ∧ (s.post t).now = s.now ∧
      (s.post t).timer = Function.update s.timer t { s.timer t with p := none } ∧
      (s.post t).queue = s.queue ++ [.timer (s.timer t).p t] := by
  obtain ⟨x, hx⟩ := updateTime_eq (({ s with
    queue := s.queue ++ [.timer (s.timer t).p t]
    timerlist := s.timerlist.erase t } : State).modify t fun e => { e with p := none })
  rw [State.post, hx]
  exact ⟨rfl, rfl, rfl, rfl⟩

theorem earliest_post (h : Core s) (hothers : s.OthersInTime t) : (s.post t).Earliest := by
  apply earliest_updateTime
  · intro u
    show ((Function.update s.timer t { s.timer t with p := none } u).start.toNat : Int) =
      (Function.update s.timer t { s.timer t with p := none } u).begun % 2 ^ 32
    by_cases hu : u = t
    · subst hu
      rw [Function.update_self]
      exact h.start u
    · rw [Function.update_of_ne hu]
      exact h.start u
  · intro u hu
    have hmem := h.nodup.mem_erase_iff.mp hu
    have hin := hothers u hmem.2 hmem.1
    have hdue := due_update s t u none
    show (s.now : Int) ≤ (Function.update s.timer t { s.timer t with p := none } u).due ∧
      (Function.update s.timer t { s.timer t with p := none } u).due < s.now + 2 ^ 32
    rw [hdue]
    exact hin

/-- A poll keeps the invariant and takes from the list only timers that it posts; it leaves an
expired one only when the queue is full. -/
theorem expire_spec (size n : Nat) (h : Core s) (hearliest : s.Earliest) (hn : s.timerlist.length < n)
    (hothers : s.queue.length < size → ∀ t ∈ s.timerlist.find? s.expired, s.OthersInTime t) :
    let s' := State.expire size n s
    Core s' ∧ s'.Earliest ∧ s'.now = s.now ∧
      (∀ u ∈ s.timerlist, u ∈ s'.timerlist ∨ .timer (s.timer u).p u ∈ s'.queue) ∧
      (∀ e ∈ s.queue, e ∈ s'.queue) ∧
      (∀ u ∈ s'.timerlist, u ∈ s.timerlist ∧ s'.timer u = s.timer u) ∧
      (s'.queue.length < size → ∀ u ∈ s'.timerlist, s.expired u = false) := by
  induction n generalizing s with
  | zero => omega
  | succ n ih =>
      dsimp only
      rw [State.expire]
      cases hfind : s.timerlist.find? s.expired with
      | none =>
          dsimp only
          refine ⟨h, hearliest, rfl, fun u hu => .inl hu, fun e he => he,
            fun u hu => ⟨hu, rfl⟩, ?_⟩
          intro _ u hu
          simpa using List.find?_eq_none.mp hfind u hu
      | some t =>
          dsimp only
          have ht : t ∈ s.timerlist := List.mem_of_find?_eq_some hfind
          have hexpired : s.expired t = true := List.find?_some hfind
          by_cases hroom : s.queue.length < size
          · rw [if_pos hroom]
            have hin := hothers hroom t hfind
            obtain ⟨hlist, hnow, htimer, hqueue⟩ := post_frame s t
            have hlen : (s.post t).timerlist.length < n := by
              rw [hlist, List.length_erase_of_mem ht]
              have hpos := List.length_pos_of_mem ht
              omega
            have hsub : ∀ u ∈ (s.post t).timerlist, u ∈ s.timerlist ∧ u ≠ t := by
              intro u hu
              rw [hlist, h.nodup.mem_erase_iff] at hu
              exact ⟨hu.2, hu.1⟩
            have hsame : ∀ u, u ≠ t → (s.post t).timer u = s.timer u := by
              intro u hu
              rw [htimer, Function.update_of_ne hu]
            have hothers' : (s.post t).queue.length < size →
                ∀ v ∈ (s.post t).timerlist.find? (s.post t).expired,
                  (s.post t).OthersInTime v := by
              intro _ v _ u hu _
              obtain ⟨hmem, hne⟩ := hsub u hu
              have hu := hin u hmem hne
              unfold State.InTime State.due at hu ⊢
              rwa [hsame u hne, hnow]
            obtain ⟨hcore, hearl, hnow', hkept, hqueued, hfrom, hleft⟩ :=
              ih (core_post h ht hexpired) (earliest_post h hin) hlen hothers'
            refine ⟨hcore, hearl, hnow'.trans hnow, ?_, ?_, ?_, ?_⟩
            · intro u hu
              by_cases hut : u = t
              · subst hut
                right
                apply hqueued
                rw [hqueue]
                simp
              · have hmem : u ∈ (s.post t).timerlist := by
                  rw [hlist, h.nodup.mem_erase_iff]
                  exact ⟨hut, hu⟩
                have hboth := hkept u hmem
                rwa [hsame u hut] at hboth
            · intro e he
              apply hqueued
              rw [hqueue]
              exact List.mem_append_left _ he
            · intro u hu
              obtain ⟨hmem, heq⟩ := hfrom u hu
              obtain ⟨hold, hne⟩ := hsub u hmem
              exact ⟨hold, heq.trans (hsame u hne)⟩
            · intro hlt u hu
              have hout := hleft hlt u hu
              obtain ⟨-, hne⟩ := hsub u (hfrom u hu).1
              unfold State.expired State.clockTime at hout ⊢
              rwa [hsame u hne, hnow] at hout
          · rw [if_neg hroom]
            refine ⟨⟨h.nodup, h.start, h.owned, h.ctimers, h.listed, h.calls⟩, hearliest, rfl,
              fun u hu => .inl hu, fun e he => he, fun u hu => ⟨hu, rfl⟩, ?_⟩
            intro hlt
            exact absurd hlt hroom

/-- The event of a timer is delivered. -/
theorem core_deliver (h : Core s) : Core s.deliver := by
  have hpop : ∀ e q, s.queue = e :: q → (∀ c, e ≠ ctimerEvent c) → Core { s with queue := q } := by
    intro e q hqueue hne
    refine ⟨h.nodup, h.start, h.owned, ?_, h.listed, ?_⟩
    · intro c hc
      obtain ⟨hp, hbegun, hnot⟩ := h.ctimers c hc
      rw [hqueue] at hnot
      exact ⟨hp, hbegun, fun hin => hnot (List.mem_cons_of_mem _ hin)⟩
    · intro c
      obtain ⟨m, hlog, hlisted, hm⟩ := h.calls c
      refine ⟨m, hlog, hlisted, ?_⟩
      intro d hd
      rcases hm d hd with hpending | ⟨hout, hin, hle⟩
      · exact .inl hpending
      · rw [hqueue] at hin
        rcases List.mem_cons.mp hin with heq | hin
        · exact absurd heq.symm (hne c)
        · exact .inr ⟨hout, hin, hle⟩
  unfold State.deliver
  split
  · exact h
  · rename_i c q hqueue
    unfold State.ctimerProcess
    dsimp only
    have hcount : ∀ b, .ctimer b ∈ s.timerlist → ctimerEvent b ∉ q := by
      intro b hb hin
      have hnot := (h.ctimers b hb).2.2
      rw [hqueue] at hnot
      exact hnot (List.mem_cons_of_mem _ hin)
    have hhead : ctimerEvent c ∈ s.queue := by
      rw [hqueue]
      exact List.mem_cons_self
    by_cases hc : c ∈ s.ctimerList
    · rw [if_pos hc]
      refine ⟨h.nodup, h.start, h.owned, ?_, h.listed.erase c, ?_⟩
      · intro b hb
        obtain ⟨hp, hbegun, -⟩ := h.ctimers b hb
        exact ⟨hp, hbegun, hcount b hb⟩
      · intro b
        obtain ⟨m, hlog, hlisted, hm⟩ := h.calls b
        by_cases hbc : b = c
        · subst hbc
          obtain ⟨d, rfl⟩ := Option.isSome_iff_exists.mp (hlisted.mpr hc)
          have hle : d ≤ s.now := by
            rcases hm d rfl with hpending | hposted
            · exact absurd hhead (h.ctimers b hpending.1).2.2
            · exact hposted.2.2
          refine ⟨none, ?_, ?_, by simp⟩
          · show armed none (Function.update s.log b (s.log b ++ [.called s.now]) b) = _
            rw [Function.update_self, armed_append hlog, armed, if_pos hle]
            rfl
          · simp [h.listed.not_mem_erase]
        · refine ⟨m, ?_, ?_, ?_⟩
          · show armed none (Function.update s.log c _ b) = _
            rwa [Function.update_of_ne hbc]
          · rw [hlisted, List.mem_erase_of_ne hbc]
          · intro d hd
            rcases hm d hd with hpending | ⟨hout, hin, hle⟩
            · exact .inl hpending
            · rw [hqueue] at hin
              rcases List.mem_cons.mp hin with heq | hin
              · exact absurd (Id.ctimer.inj (Posted.timer.inj heq).2) hbc
              · exact .inr ⟨hout, hin, hle⟩
    · rw [if_neg hc]
      refine ⟨h.nodup, h.start, h.owned, ?_, h.listed, ?_⟩
      · intro b hb
        obtain ⟨hp, hbegun, -⟩ := h.ctimers b hb
        exact ⟨hp, hbegun, hcount b hb⟩
      · intro b
        obtain ⟨m, hlog, hlisted, hm⟩ := h.calls b
        refine ⟨m, hlog, hlisted, ?_⟩
        intro d hd
        rcases hm d hd with hpending | ⟨hout, hin, hle⟩
        · exact .inl hpending
        · rw [hqueue] at hin
          rcases List.mem_cons.mp hin with heq | hin
          · have hbc : b = c := Id.ctimer.inj (Posted.timer.inj heq).2
            have hb : b ∈ s.ctimerList := hlisted.mp (by rw [hd]; rfl)
            rw [hbc] at hb
            exact absurd hb hc
          · exact .inr ⟨hout, hin, hle⟩
  · rename_i e q hnot hqueue
    exact hpop e q hqueue fun c heq => hnot c heq

/-! ### Runs -/

theorem updateTime_timerlist (s : State) : s.updateTime.timerlist = s.timerlist := by
  obtain ⟨x, hx⟩ := updateTime_eq s
  rw [hx]

/-- The invariant behind a step, and no timer that is lost in it. -/
def Keeps (size : Nat) (s : State) (e : Event) : Prop :=
  (Core (e.step size s) ∧ (e.step size s).Earliest) ∧ Lossless size s e

/-- A timer of a process is set. -/
theorem keeps_put (h : Core s) {e : Event} {n : Nat} {e' : Timer}
    (hstep : e.step size s = (s.put (.etimer n) e').updateTime) (hpoll : e ≠ .poll)
    (he : (e'.start.toNat : Int) = e'.begun % 2 ^ 32) (hp : e'.p ≠ none)
    (hothers : s.OthersInTime (.etimer n)) (hle : s.now ≤ e'.due) (hlt : e'.due < s.now + 2 ^ 32) :
    Keeps size s e := by
  refine ⟨?_, ?_, fun heq => absurd heq hpoll⟩
  · rw [hstep]
    exact ⟨(core_put_etimer h he hp).updateTime, earliest_put h he hothers hle hlt⟩
  · intro t ht
    left
    rw [hstep, updateTime_timerlist]
    exact mem_put.mpr (.inr ht)

/-- A callback timer is armed. -/
theorem keeps_arm (h : Core s) {e : Event} {c : Nat} {e' : Timer}
    (hstep : e.step size s = ((s.put (.ctimer c) e').updateTime).arm c) (hpoll : e ≠ .poll)
    (he : (e'.start.toNat : Int) = e'.begun % 2 ^ 32) (hp : e'.p = some .ctimerProcess)
    (hbegun : e'.begun ≤ s.now) (hqueue : ctimerEvent c ∉ s.queue)
    (hothers : s.OthersInTime (.ctimer c)) (hle : s.now ≤ e'.due) (hlt : e'.due < s.now + 2 ^ 32) :
    Keeps size s e := by
  have hcore := core_arm h he hp hbegun hqueue
  have hearliest := earliest_put h he hothers hle hlt
  obtain ⟨x, hx⟩ := updateTime_eq (s.put (.ctimer c) e')
  refine ⟨?_, ?_, fun heq => absurd heq hpoll⟩
  · rw [hstep]
    constructor
    · rw [hx]
      exact ⟨hcore.nodup, hcore.start, hcore.owned, hcore.ctimers, hcore.listed, hcore.calls⟩
    · exact earliest_congr (s := (s.put (.ctimer c) e').updateTime) rfl rfl (fun _ => rfl) hearliest
  · intro t ht
    left
    rw [hstep]
    show t ∈ (s.put (.ctimer c) e').updateTime.timerlist
    rw [updateTime_timerlist]
    exact mem_put.mpr (.inr ht)

theorem started_now (s : State) : (s.clockTime.toNat : Int) = (s.now : Int) % 2 ^ 32 := by
  rw [toNat_clockTime]
  omega

theorem started_due (h : Core s) (t : Id) :
    (((s.timer t).start + (s.timer t).interval).toNat : Int) = s.due t % 2 ^ 32 := by
  have hs := h.start t
  have hdue : s.due t = (s.timer t).begun + (s.timer t).interval.toNat := rfl
  rw [UInt32.toNat_add]
  omega

theorem etimerSet_eq (h : Core s) (t : Id) (interval : UInt32) (p : Option Proc) :
    s.etimerSet t interval p = (s.put t ⟨s.clockTime, interval, p, s.now⟩).updateTime :=
  addTimer_eq h t (fun e => { e with interval := interval, start := s.clockTime, begun := s.now })
    (fun _ => rfl) p

theorem etimerRestart_eq (h : Core s) (t : Id) (p : Option Proc) :
    s.etimerRestart t p =
      (s.put t ⟨s.clockTime, (s.timer t).interval, p, s.now⟩).updateTime :=
  addTimer_eq h t (fun e => { e with start := s.clockTime, begun := s.now }) (fun _ => rfl) p

theorem etimerReset_eq (h : Core s) (t : Id) (p : Option Proc) :
    s.etimerReset t p = (s.put t ⟨(s.timer t).start + (s.timer t).interval,
      (s.timer t).interval, p, s.due t⟩).updateTime :=
  addTimer_eq h t (fun e => { e with start := e.start + e.interval, begun := e.due })
    (fun _ => rfl) p

theorem keeps_set (h : Core s) {n : Nat} {interval : UInt32} {p : Option Proc}
    (hregular : (Event.set n interval p).Regular size s) : Keeps size s (.set n interval p) := by
  have hlt := interval.toNat_lt
  refine keeps_put h (etimerSet_eq h _ _ _) (by simp) (started_now s)
    hregular.1 hregular.2 ?_ ?_
  · show (s.now : Int) ≤ s.now + interval.toNat
    omega
  · show (s.now : Int) + interval.toNat < s.now + 2 ^ 32
    omega

theorem keeps_restart (h : Core s) {n : Nat} {p : Option Proc}
    (hregular : (Event.restart n p).Regular size s) : Keeps size s (.restart n p) := by
  have hlt := (s.timer (.etimer n)).interval.toNat_lt
  refine keeps_put h (etimerRestart_eq h _ _) (by simp) (started_now s)
    hregular.1 hregular.2 ?_ ?_
  · show (s.now : Int) ≤ s.now + (s.timer (.etimer n)).interval.toNat
    omega
  · show (s.now : Int) + (s.timer (.etimer n)).interval.toNat < s.now + 2 ^ 32
    omega

theorem keeps_reset (h : Core s) {n : Nat} {p : Option Proc}
    (hregular : (Event.reset n p).Regular size s) : Keeps size s (.reset n p) :=
  keeps_put h (etimerReset_eq h _ _) (by simp) (started_due h _)
    hregular.1 hregular.2.1 hregular.2.2.1 hregular.2.2.2

theorem keeps_ctimerSet (h : Core s) {c : Nat} {interval : UInt32}
    (hregular : (Event.ctimerSet c interval).Regular size s) :
    Keeps size s (.ctimerSet c interval) := by
  have hlt := interval.toNat_lt
  refine keeps_arm h (congrArg (State.arm · c) (etimerSet_eq h (.ctimer c) interval _))
    (by simp) (started_now s) rfl (Int.le_refl _) hregular.1 hregular.2 ?_ ?_
  · show (s.now : Int) ≤ s.now + interval.toNat
    omega
  · show (s.now : Int) + interval.toNat < s.now + 2 ^ 32
    omega

theorem keeps_ctimerRestart (h : Core s) {c : Nat}
    (hregular : (Event.ctimerRestart c).Regular size s) : Keeps size s (.ctimerRestart c) := by
  have hlt := (s.timer (.ctimer c)).interval.toNat_lt
  refine keeps_arm h (congrArg (State.arm · c) (etimerRestart_eq h (.ctimer c) _))
    (by simp) (started_now s) rfl (Int.le_refl _) hregular.1 hregular.2 ?_ ?_
  · show (s.now : Int) ≤ s.now + (s.timer (.ctimer c)).interval.toNat
    omega
  · show (s.now : Int) + (s.timer (.ctimer c)).interval.toNat < s.now + 2 ^ 32
    omega

theorem keeps_ctimerReset (h : Core s) {c : Nat}
    (hregular : (Event.ctimerReset c).Regular size s) : Keeps size s (.ctimerReset c) := by
  obtain ⟨⟨hqueue, hothers⟩, hbegun, hle⟩ := hregular
  have hlt := (s.timer (.ctimer c)).interval.toNat_lt
  refine keeps_arm h (congrArg (State.arm · c) (etimerReset_eq h (.ctimer c) _))
    (by simp) (started_due h _) rfl hbegun hqueue hothers hle ?_
  show s.due (.ctimer c) + (s.timer (.ctimer c)).interval.toNat < s.now + 2 ^ 32
  omega

theorem keeps_adjust (h : Core s) {n : Nat} {d : Int}
    (hregular : (Event.adjust n d).Regular size s) : Keeps size s (.adjust n d) := by
  have htimer : ∀ u, u ≠ .etimer n → (s.modify (.etimer n) fun e => { e with
      start := e.start + UInt32.ofInt d, begun := e.begun + d }).timer u = s.timer u :=
    fun u hu => Function.update_of_ne hu _ s.timer
  have hself : (s.modify (.etimer n) fun e => { e with
      start := e.start + UInt32.ofInt d, begun := e.begun + d }).timer (.etimer n) =
      { s.timer (.etimer n) with
        start := (s.timer (.etimer n)).start + UInt32.ofInt d
        begun := (s.timer (.etimer n)).begun + d } :=
    Function.update_self (Id.etimer n) _ s.timer
  have hstart : (s.modify (.etimer n) fun e => { e with
      start := e.start + UInt32.ofInt d, begun := e.begun + d }).Started := by
    intro u
    by_cases hu : u = .etimer n
    · subst hu
      have hs := h.start (.etimer n)
      have hd : (UInt32.ofInt d).toNat = (d % 2 ^ 32).toNat % 2 ^ 32 := UInt32.toNat_ofNat'
      rw [hself]
      dsimp only
      rw [UInt32.toNat_add, hd]
      omega
    · rw [htimer u hu]
      exact h.start u
  refine ⟨⟨?_, ?_⟩, ?_, by simp⟩
  · apply Core.updateTime
    refine ⟨h.nodup, hstart, ?_, ?_, h.listed, ?_⟩
    · intro u hu
      by_cases hut : u = .etimer n
      · subst hut
        rw [hself]
        exact h.owned _ hu
      · rw [htimer u hut]
        exact h.owned u hu
    · intro c hc
      rw [htimer _ (by simp)]
      exact h.ctimers c hc
    · intro c
      rw [State.due, htimer _ (by simp)]
      exact h.calls c
  · apply earliest_updateTime hstart
    intro u hu
    unfold State.InTime State.due
    by_cases hut : u = .etimer n
    · subst hut
      obtain ⟨hle, hlt⟩ := hregular.2 hu
      have hdue : (s.timer (.etimer n)).due + d =
          (s.timer (.etimer n)).begun + d + (s.timer (.etimer n)).interval.toNat := by
        unfold Timer.due
        omega
      rw [hself]
      unfold State.due at hle hlt
      rw [hdue] at hle hlt
      exact ⟨hle, hlt⟩
    · rw [htimer u hut]
      exact hregular.1 u hu hut
  · intro t ht
    left
    show t ∈ State.timerlist (State.updateTime _)
    rw [updateTime_timerlist]
    exact ht

theorem keeps_stop (h : Core s) (hearliest : s.Earliest) {n : Nat}
    (hregular : (Event.stop n).Regular size s) : Keeps size s (.stop n) := by
  refine ⟨⟨core_stop_etimer h, earliest_etimerStop h hearliest hregular⟩, ?_, by simp⟩
  intro t ht
  by_cases heq : t = .etimer n
  · exact .inr (.inl heq)
  · left
    show t ∈ (s.etimerStop (.etimer n)).timerlist
    rw [etimerStop_timerlist, h.nodup.mem_erase_iff]
    exact ⟨heq, ht⟩

theorem keeps_ctimerStop (h : Core s) (hearliest : s.Earliest) {c : Nat}
    (hregular : (Event.ctimerStop c).Regular size s) : Keeps size s (.ctimerStop c) := by
  refine ⟨⟨core_stop_ctimer h, ?_⟩, ?_, by simp⟩
  · exact earliest_congr (s := s.etimerStop (.ctimer c)) rfl rfl (fun _ => rfl)
      (earliest_etimerStop h hearliest hregular)
  · intro t ht
    by_cases heq : t = .ctimer c
    · exact .inr (.inl heq)
    · left
      show t ∈ (s.etimerStop (.ctimer c)).timerlist
      rw [etimerStop_timerlist, h.nodup.mem_erase_iff]
      exact ⟨heq, ht⟩

theorem keeps_tick (h : Core s) (hearliest : s.Earliest) : Keeps size s .tick := by
  refine ⟨⟨⟨h.nodup, h.start, h.owned, ?_, h.listed, ?_⟩, hearliest⟩, fun t ht => .inl ht, by simp⟩
  · intro c hc
    obtain ⟨hp, hbegun, hqueue⟩ := h.ctimers c hc
    refine ⟨hp, ?_, hqueue⟩
    show (s.timer (.ctimer c)).begun ≤ (s.now + 1 : Nat)
    omega
  · intro c
    obtain ⟨m, hlog, hlisted, hm⟩ := h.calls c
    refine ⟨m, hlog, hlisted, ?_⟩
    intro d hd
    rcases hm d hd with hpending | ⟨hout, hin, hle⟩
    · exact .inl hpending
    · refine .inr ⟨hout, hin, ?_⟩
      show d ≤ (s.now + 1 : Nat)
      omega

theorem keeps_exit (h : Core s) (hearliest : s.Earliest) {n : Nat}
    (hregular : (Event.exit n).Regular size s) : Keeps size s (.exit n) := by
  have hmem : ∀ t, t ∈ (s.exited (.user n)).timerlist ↔
      t ∈ s.timerlist ∧ (s.timer t).p ≠ some (.user n) := by
    intro t
    rw [State.exited, List.mem_filter, decide_eq_true_iff]
  refine ⟨⟨⟨h.nodup.filter _, h.start, fun t ht => h.owned t ((hmem t).mp ht).1, ?_, h.listed, ?_⟩,
    ?_⟩, ?_, by simp⟩
  · intro c hc
    exact h.ctimers c ((hmem _).mp hc).1
  · intro c
    obtain ⟨m, hlog, hlisted, hm⟩ := h.calls c
    refine ⟨m, hlog, hlisted, ?_⟩
    intro d hd
    rcases hm d hd with ⟨hin, hdue⟩ | ⟨hout, hrest⟩
    · refine .inl ⟨(hmem _).mpr ⟨hin, ?_⟩, hdue⟩
      rw [(h.ctimers c hin).1]
      simp
    · exact .inr ⟨fun hin => hout ((hmem _).mp hin).1, hrest⟩
  · intro hne
    obtain ⟨u, hu⟩ := List.exists_mem_of_ne_nil _ hne
    obtain ⟨hu, hother⟩ := (hmem u).mp hu
    obtain ⟨t, ht, hnext, hall⟩ := hearliest (List.ne_nil_of_mem hu)
    obtain ⟨v, hv, hvp, hle⟩ := hregular ⟨u, hu, hother⟩ t ht
    have hsame : s.due v = s.due t := by
      have hge := hall v hv
      omega
    refine ⟨v, (hmem v).mpr ⟨hv, hvp⟩, ?_, ?_⟩
    · show (s.nextExpiration.toNat : Int) = s.due v % 2 ^ 32
      rw [hsame]
      exact hnext
    · intro w hw
      show s.due v ≤ s.due w
      rw [hsame]
      exact hall w ((hmem w).mp hw).1
  · intro t ht
    by_cases hp : (s.timer t).p = some (.user n)
    · exact .inr (.inr (.inl hp))
    · exact .inl ((hmem t).mpr ⟨ht, hp⟩)

theorem keeps_poll (h : Core s) (hearliest : s.Earliest)
    (hregular : Event.poll.Regular size s) : Keeps size s .poll := by
  by_cases hpolled : s.polled = true
  · obtain ⟨hlate, hothers⟩ := hregular hpolled
    have hcore : Core { s with polled := false } :=
      ⟨h.nodup, h.start, h.owned, h.ctimers, h.listed, h.calls⟩
    obtain ⟨hcore', hearliest', hnow, hkept, -, hfrom, hleft⟩ :=
      expire_spec size (s.timerlist.length + 1) hcore hearliest (Nat.lt_succ_self _) hothers
    have hstep : Event.step size s .poll =
        State.expire size (s.timerlist.length + 1) { s with polled := false } := by
      rw [Event.step, State.poll, if_pos hpolled]
    refine ⟨by rw [hstep]; exact ⟨hcore', hearliest'⟩, ?_, ?_⟩
    · intro t ht
      rw [hstep]
      rcases hkept t ht with hin | hposted
      · exact .inl hin
      · exact .inr (.inr (.inr hposted))
    · intro _ _ hroom t ht
      rw [hstep] at hroom ht
      have hout : s.expired t = false := hleft hroom t ht
      by_contra hle
      have hexpired := expired_of_due h.start (hlate t (hfrom t ht).1) (by omega)
      rw [hout] at hexpired
      cases hexpired
  · have hstep : Event.step size s .poll = s := by
      rw [Event.step, State.poll, if_neg hpolled]
    refine ⟨by rw [hstep]; exact ⟨h, hearliest⟩, ?_, ?_⟩
    · intro t ht
      rw [hstep]
      exact .inl ht
    · intro _ hcontra
      exact absurd hcontra hpolled

/-- A state with more events of others in the queue, or a poll that was requested. -/
theorem core_other {b : Bool} (h : Core s) :
    Core { s with queue := s.queue ++ [.other] } ∧ Core { s with polled := b } := by
  refine ⟨⟨h.nodup, h.start, h.owned, ?_, h.listed, ?_⟩,
    ⟨h.nodup, h.start, h.owned, h.ctimers, h.listed, h.calls⟩⟩
  · intro c hc
    obtain ⟨hp, hbegun, hqueue⟩ := h.ctimers c hc
    refine ⟨hp, hbegun, ?_⟩
    simpa [ctimerEvent] using hqueue
  · intro c
    obtain ⟨m, hlog, hlisted, hm⟩ := h.calls c
    refine ⟨m, hlog, hlisted, ?_⟩
    intro d hd
    rcases hm d hd with hpending | ⟨hout, hin, hle⟩
    · exact .inl hpending
    · exact .inr ⟨hout, List.mem_append_left _ hin, hle⟩

theorem deliver_frame (s : State) : s.deliver.timerlist = s.timerlist ∧
    s.deliver.nextExpiration = s.nextExpiration ∧ s.deliver.timer = s.timer := by
  unfold State.deliver
  split
  · exact ⟨rfl, rfl, rfl⟩
  · unfold State.ctimerProcess
    split_ifs <;> exact ⟨rfl, rfl, rfl⟩
  · exact ⟨rfl, rfl, rfl⟩

theorem keeps_step (h : Core s) (hearliest : s.Earliest) (e : Event)
    (hregular : e.Regular size s) : Keeps size s e := by
  cases e with
  | set n interval p => exact keeps_set h hregular
  | reset n p => exact keeps_reset h hregular
  | restart n p => exact keeps_restart h hregular
  | adjust n d => exact keeps_adjust h hregular
  | stop n => exact keeps_stop h hearliest hregular
  | ctimerSet c interval => exact keeps_ctimerSet h hregular
  | ctimerReset c => exact keeps_ctimerReset h hregular
  | ctimerRestart c => exact keeps_ctimerRestart h hregular
  | ctimerStop c => exact keeps_ctimerStop h hearliest hregular
  | tick => exact keeps_tick h hearliest
  | requestPoll => exact ⟨⟨(core_other h).2, hearliest⟩, fun t ht => .inl ht, by simp⟩
  | poll => exact keeps_poll h hearliest hregular
  | exit n => exact keeps_exit h hearliest hregular
  | postOther =>
      unfold Keeps
      by_cases hroom : s.queue.length < size
      · have hstep : Event.step size s .postOther = { s with queue := s.queue ++ [.other] } := by
          rw [Event.step, if_pos hroom]
        refine ⟨by rw [hstep]; exact ⟨(core_other (b := true) h).1, hearliest⟩, ?_, by simp⟩
        intro t ht
        rw [hstep]
        exact .inl ht
      · have hstep : Event.step size s .postOther = s := by
          rw [Event.step, if_neg hroom]
        refine ⟨by rw [hstep]; exact ⟨h, hearliest⟩, ?_, by simp⟩
        intro t ht
        rw [hstep]
        exact .inl ht
  | deliver =>
      obtain ⟨hlist, hnext, htimer⟩ := deliver_frame s
      refine ⟨⟨core_deliver h, earliest_congr hlist hnext ?_ hearliest⟩, ?_, by simp⟩
      · intro u
        show (s.deliver.timer u).due = (s.timer u).due
        rw [htimer]
      · intro t ht
        left
        show t ∈ s.deliver.timerlist
        rwa [hlist]

theorem sound_of_core (es : List Event) (h : Core s) (hearliest : s.Earliest)
    (hregular : Regular size s es) : SoundRun size s es := by
  induction es generalizing s with
  | nil => exact h.sound hearliest
  | cons e es ih =>
      obtain ⟨⟨hcore, hearliest'⟩, hlossless⟩ := keeps_step h hearliest e hregular.1
      exact ⟨⟨h.sound hearliest, hlossless⟩, ih hcore hearliest' hregular.2⟩

theorem core_init : Core .init := by
  refine ⟨by simp [State.init], fun t => rfl, by simp [State.init], by simp [State.init],
    by simp [State.init], ?_⟩
  intro c
  exact ⟨none, rfl, by simp [State.init], by simp⟩

/-- In every run whose events are all regular no timer is twice on the list, the next expiration is
the earliest one, callbacks are made once and not too early, and no timer is lost. -/
theorem timers_sound (size : Nat) (es : List Event) (hregular : Regular size .init es) :
    SoundRun size .init es :=
  sound_of_core es core_init (fun hne => absurd rfl hne) hregular

/-- A callback timer and the timer of a process: the first one is called, armed again and stopped,
the process exits. -/
theorem timers_sound_two :
    SoundRun 4 .init [.ctimerSet 0 2, .set 0 5 (some (.user 1)), .poll, .tick, .tick, .requestPoll,
      .poll, .deliver, .ctimerSet 0 2, .exit 1, .ctimerStop 0] :=
  timers_sound 4 _ (by decide +kernel)

/-- A callback timer is armed for 100 ticks more while its event is in the queue, and called at
once. -/
theorem not_sound_rearmed :
    ¬ SoundRun 4 .init [.ctimerSet 0 1, .tick, .poll, .ctimerSet 0 100, .deliver] := by
  rintro ⟨-, -, -, -, -, hsound⟩
  obtain ⟨m, hm, -⟩ := hsound.calls 0
  have hnone : armed none ((run 4 [.ctimerSet 0 1, .tick, .poll, .ctimerSet 0 100,
      .deliver]).log 0) = none := by
    decide +kernel
  have hsome : armed none ((run 4 [.ctimerSet 0 1, .tick, .poll, .ctimerSet 0 100,
      .deliver]).log 0) = some m := hm
  rw [hnone] at hsome
  cases hsome

end Calipso.Etimer
