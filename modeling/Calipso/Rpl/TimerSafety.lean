import Calipso.Rpl.Timers

/-!
# Timers within their types

The configuration of an instance comes from the network and is not checked. In which cases do
all computations of the timers and of the ranks fit in their types, in every run?
-/

namespace Calipso.Rpl

open Wire

namespace Timers

/-! ### One interval -/

/-- The random part of the delay. -/
theorem random_le (half : Nat) (r : UInt16) :
    half * r.toNat % 2 ^ 32 / 65535 ≤ half := by
  have hr := r.toNat_lt
  calc
    half * r.toNat % 2 ^ 32 / 65535 ≤ half * r.toNat / 65535 :=
      Nat.div_le_div_right (Nat.mod_le _ _)
    _ ≤ half * 65535 / 65535 := by
      apply Nat.div_le_div_right
      exact Nat.mul_le_mul_left half (by omega)
    _ = half := Nat.mul_div_cancel half (by decide)

/-- An interval is computed without overflow up to `2 ^ 22` ms. -/
theorem clock_safe_iff {n : Nat} (h : n < 32) :
    (Computation.clock (2 ^ n % 2 ^ 32)).Safe ↔ n ≤ 22 := by
  have hall : ∀ k : Fin 32, 2 ^ k.val % 2 ^ 32 * clockSecond < 2 ^ 32 ↔ k.val ≤ 22 := by decide
  exact hall ⟨n, h⟩

theorem ticks_eq {n : Nat} (h : n ≤ 22) : 2 ^ n % 2 ^ 32 * clockSecond % 2 ^ 32 / 1000 = 2 ^ n := by
  have hall : ∀ k : Fin 23, 2 ^ k.val % 2 ^ 32 * clockSecond % 2 ^ 32 / 1000 = 2 ^ k.val := by
    decide
  exact hall ⟨n, Nat.lt_succ_of_le h⟩

variable {t : Timers} {env : Env}

theorem newDioInterval_all (t : Timers) (env : Env) :
    (t.newDioInterval env).All Computation.Safe ↔ t.dioIntcurrent.toNat ≤ 22 := by
  simp only [newDioInterval, Log.all_bind, Log.all_entry, Log.all_pure, and_true]
  constructor
  · rintro ⟨hshift, hclock⟩
    exact (clock_safe_iff hshift).mp hclock
  · intro hle
    have hshift : t.dioIntcurrent.toNat < 32 := by omega
    exact ⟨hshift, (clock_safe_iff hshift).mpr hle⟩

/-- A new interval of at least two ms. -/
theorem newDioInterval_scheduled (t : Timers) (env : Env) (hpos : 0 < t.dioIntcurrent.toNat)
    (hle : t.dioIntcurrent.toNat ≤ 22) :
    (Computation.dio t.dioIntcurrent.toNat (t.newDioInterval env).value.due).Safe := by
  have hdue : (t.newDioInterval env).value.due = 2 ^ t.dioIntcurrent.toNat / 2 +
      2 ^ t.dioIntcurrent.toNat / 2 * env.random.toNat % 2 ^ 32 / 65535 := by
    simp only [newDioInterval, Log.value_bind, Log.value_pure, ticks_eq hle]
  obtain ⟨k, hk⟩ : ∃ k, t.dioIntcurrent.toNat = k + 1 := ⟨_, (Nat.succ_pred_eq_of_pos hpos).symm⟩
  have hhalf : 2 ^ (k + 1) / 2 = 2 ^ k := by
    rw [pow_succ, Nat.mul_div_cancel _ Nat.two_pos]
  have hrandom := random_le (2 ^ k) env.random
  rw [hdue, hk, hhalf]
  simp only [Computation.Safe, pow_succ]
  omega

/-! ### Invariant -/

/-- The lifetime timer is computed without overflow, or never set. -/
def LifetimeFits (unit : UInt16) (lifetime : UInt8) : Prop :=
  unit = 0xffff ∨ lifetime = 0xff ∨ lifetime.toNat * unit.toNat * clockSecond < 2 ^ 32

/-- There is no division by `min_hoprankinc`, or it is not zero. -/
def Divides (rplOf : ObjectiveFunction) (minHoprankinc maxRankinc : UInt16) : Prop :=
  minHoprankinc ≠ 0 ∨ maxRankinc = 0 ∧ rplOf = .mrhof

/-- What holds of the timers in a safe run: with no doublings the DIO timer is never set. -/
structure Sound (rplOf : ObjectiveFunction) (t : Timers) : Prop where
  divides : Divides rplOf t.minHoprankinc t.maxRankinc
  lifetime : LifetimeFits t.lifetimeUnit t.defaultLifetime
  inRange : t.InRange
  interval : t.dioIntdoubl = 0 ∧ t.dioTimer = false ∨
    0 < t.dioIntmin.toNat ∧ t.dioIntmin.toNat + t.dioIntdoubl.toNat ≤ 22

variable {rplOf : ObjectiveFunction}

/-- An interval within the bounds of the configuration. -/
theorem sound_newDioInterval (hdivides : Divides rplOf t.minHoprankinc t.maxRankinc)
    (hlifetime : LifetimeFits t.lifetimeUnit t.defaultLifetime) (hpos : 0 < t.dioIntmin.toNat)
    (hsum : t.dioIntmin.toNat + t.dioIntdoubl.toNat ≤ 22) (hlow : t.dioIntmin ≤ t.dioIntcurrent)
    (hhigh : t.dioIntcurrent.toNat ≤ t.dioIntmin.toNat + t.dioIntdoubl.toNat) :
    (t.newDioInterval env).All Computation.Safe ∧ Sound rplOf (t.newDioInterval env).value := by
  have hle := UInt8.le_iff_toNat_le.mp hlow
  have hscheduled := newDioInterval_scheduled t env (by omega) (by omega)
  constructor
  · exact (newDioInterval_all t env).mpr (by omega)
  · exact
      { divides := hdivides
        lifetime := hlifetime
        inRange := ⟨hlow, hhigh, fun _ _ => hscheduled⟩
        interval := Or.inr ⟨hpos, hsum⟩ }

namespace Sound

theorem resetDioTimer (h : Sound rplOf t) (env : Env) :
    (t.resetDioTimer env).All Computation.Safe ∧ Sound rplOf (t.resetDioTimer env).value := by
  rw [Timers.resetDioTimer]
  split
  · rename_i hlt
    have hlt' := UInt8.lt_iff_toNat_lt.mp hlt
    have hhigh := h.inRange.high
    rcases h.interval with ⟨hdoubl, -⟩ | ⟨hpos, hsum⟩
    · rw [hdoubl] at hhigh
      simp at hhigh
      omega
    · exact sound_newDioInterval h.divides h.lifetime hpos hsum (UInt8.le_refl _) (by simp)
  · exact ⟨Log.all_pure t, h⟩

theorem handleDioTimer (h : Sound rplOf t) (hset : t.dioTimer = true)
    (hready : t.dioSendOk ∨ env.linkLocal) :
    (t.handleDioTimer env).All Computation.Safe ∧ Sound rplOf (t.handleDioTimer env).value := by
  have hgo : (!t.dioSendOk && !env.linkLocal) = false := by
    rcases hready with hready | hready <;> simp [hready]
  have hlow := UInt8.le_iff_toNat_le.mp h.inRange.low
  have hhigh := h.inRange.high
  rcases h.interval with ⟨-, hunset⟩ | ⟨hpos, hsum⟩
  · simp [hset] at hunset
  rw [Timers.handleDioTimer, hgo]
  cases hsend : t.dioSend with
  | true =>
      have hscheduled := h.inRange.scheduled hset hsend
      simp only [Bool.false_eq_true, if_false, if_true, Log.all_bind, Log.all_ite,
        Log.all_entry, Log.all_pure, and_true, implies_true, Log.value_ite, Log.value_bind,
        Log.value_pure, ite_self]
      exact ⟨fun _ => hscheduled, h.divides, h.lifetime, ⟨h.inRange.low, hhigh, by simp⟩,
        Or.inr ⟨hpos, hsum⟩⟩
  | false =>
      simp only [Bool.false_eq_true, if_false]
      split
      · rename_i hlt
        have hnext : (t.dioIntcurrent + 1).toNat = t.dioIntcurrent.toNat + 1 := by
          have hone : (1 : UInt8).toNat = 1 := rfl
          rw [UInt8.toNat_add, hone]
          exact Nat.mod_eq_of_lt (by omega)
        apply sound_newDioInterval
        · exact h.divides
        · exact h.lifetime
        · exact hpos
        · exact hsum
        · rw [UInt8.le_iff_toNat_le]
          dsimp only
          omega
        · dsimp only
          omega
      · exact sound_newDioInterval h.divides h.lifetime hpos hsum h.inRange.low hhigh

theorem setDaoLifetimeTimer (h : Sound rplOf t) (env : Env) :
    (t.setDaoLifetimeTimer env).All Computation.Safe ∧
      Sound rplOf (t.setDaoLifetimeTimer env).value := by
  have hkeep : Sound rplOf { t with daoLifetimeTimer := true } :=
    ⟨h.divides, h.lifetime, ⟨h.inRange.low, h.inRange.high, h.inRange.scheduled⟩, h.interval⟩
  rw [Timers.setDaoLifetimeTimer]
  cases env.feather with
  | true => exact ⟨Log.all_pure t, h⟩
  | false =>
      simp only [Bool.false_eq_true, if_false]
      split
      · rename_i hset
        have hfits : t.defaultLifetime.toNat * t.lifetimeUnit.toNat * clockSecond < 2 ^ 32 := by
          rcases h.lifetime with hunit | hdefault | hfits
          · exact absurd hunit hset.1
          · exact absurd hdefault hset.2
          · exact hfits
        simpa [Computation.Safe] using ⟨hfits, hkeep⟩
      · exact ⟨Log.all_pure t, h⟩

theorem clear (h : Sound rplOf t) (dao lifetime : Bool) :
    Sound rplOf { t with daoTimer := dao, daoLifetimeTimer := lifetime } :=
  ⟨h.divides, h.lifetime, ⟨h.inRange.low, h.inRange.high, h.inRange.scheduled⟩, h.interval⟩

theorem handleDaoTimer (h : Sound rplOf t) (env : Env) :
    (t.handleDaoTimer env).All Computation.Safe ∧ Sound rplOf (t.handleDaoTimer env).value := by
  rw [Timers.handleDaoTimer]
  split
  · exact ⟨Log.all_pure _, h.clear true _⟩
  · split
    · exact ⟨Log.all_pure _, h.clear false _⟩
    · exact (h.clear false _).setDaoLifetimeTimer env

theorem scheduleDao (h : Sound rplOf t) (env : Env) :
    (t.scheduleDao env).All Computation.Safe ∧ Sound rplOf (t.scheduleDao env).value := by
  rw [Timers.scheduleDao]
  split
  · exact ⟨Log.all_pure t, h⟩
  · exact (h.clear true _).setDaoLifetimeTimer env

theorem acceptableRank_all (h : Sound rplOf t) (minRank rank : UInt16) :
    (t.acceptableRank minRank rank).All Computation.Safe := by
  rw [acceptableRank]
  split
  · exact Log.all_pure _
  · split
    · exact Log.all_pure _
    · rename_i hmax
      have hmin : t.minHoprankinc ≠ 0 := h.divides.resolve_right fun h' => hmax h'.1
      simpa [dagRank, Computation.Safe] using hmin

theorem bestParent_all (h : Sound rplOf t) (rank₁ rank₂ : UInt16) :
    (t.bestParent rplOf rank₁ rank₂).All Computation.Safe := by
  cases rplOf with
  | mrhof => exact Log.all_pure _
  | of0 =>
      have hmin : t.minHoprankinc ≠ 0 := h.divides.resolve_right fun h' => nomatch h'.2
      simpa [bestParent, dagRank, Computation.Safe] using hmin

/-- One step. -/
theorem step (h : Sound rplOf t) (env : Env) (e : Event)
    (hready : e = .dioTimer → t.dioSendOk ∨ env.linkLocal) :
    (t.step rplOf env e).All Computation.Safe ∧ Sound rplOf (t.step rplOf env e).value := by
  cases e with
  | dioTimer =>
      rw [Timers.step]
      split
      · exact h.handleDioTimer ‹_› (hready rfl)
      · exact ⟨Log.all_pure t, h⟩
  | daoTimer =>
      rw [Timers.step]
      split
      · exact (h.clear false _).handleDaoTimer env
      · exact ⟨Log.all_pure t, h⟩
  | daoLifetimeTimer =>
      rw [Timers.step]
      split
      · exact (h.clear _ false).handleDaoTimer env
      · exact ⟨Log.all_pure t, h⟩
  | reset => exact h.resetDioTimer env
  | scheduleDao => exact h.scheduleDao env
  | acceptableRank minRank rank =>
      have hall := h.acceptableRank_all minRank rank
      exact ⟨(Log.all_bind _ _).mpr ⟨hall, Log.all_pure t⟩, h⟩
  | bestParent rank₁ rank₂ =>
      have hall := h.bestParent_all rank₁ rank₂
      exact ⟨(Log.all_bind _ _).mpr ⟨hall, Log.all_pure t⟩, h⟩
  | consistentDio =>
      exact ⟨Log.all_pure _, h.divides, h.lifetime,
        ⟨h.inRange.low, h.inRange.high, h.inRange.scheduled⟩, h.interval⟩

/-- A whole run. -/
theorem safeRun (h : Sound rplOf t) {es : List (Env × Event)} (hready : Ready rplOf t es) :
    SafeRun rplOf t es := by
  induction es generalizing t with
  | nil => exact h.inRange
  | cons e es ih =>
      obtain ⟨env, e⟩ := e
      obtain ⟨hnow, hlater⟩ := hready
      obtain ⟨hall, hnext⟩ := h.step env e hnow
      exact ⟨h.inRange, hall, ih hnext hlater⟩

end Sound

/-! ### Joining -/

/-- A configuration with which all computations of every run fit. -/
structure Acceptable (rplOf : ObjectiveFunction) (dio : Dio) : Prop where
  divides : Divides rplOf dio.dagMinHoprankinc dio.dagMaxRankinc
  interval : dio.dagIntdoubl = 0 ∨
    0 < dio.dagIntmin.toNat ∧ dio.dagIntmin.toNat + dio.dagIntdoubl.toNat ≤ 22
  lifetime : LifetimeFits dio.lifetimeUnit dio.defaultLifetime

variable {dio : Dio} {dioSendOk : Bool}

theorem sound_configured (h : Acceptable rplOf dio) (dioSendOk : Bool) :
    Sound rplOf (configured dio dioSendOk) := by
  have hsum : (dio.dagIntmin + dio.dagIntdoubl).toNat =
      dio.dagIntmin.toNat + dio.dagIntdoubl.toNat := by
    have hlt := dio.dagIntmin.toNat_lt
    rw [UInt8.toNat_add]
    apply Nat.mod_eq_of_lt
    rcases h.interval with hdoubl | ⟨-, hle⟩
    · simpa [hdoubl] using hlt
    · omega
  refine ⟨h.divides, h.lifetime, ⟨?_, ?_, fun hset => by simp [configured] at hset⟩, ?_⟩
  · rw [UInt8.le_iff_toNat_le]
    simp only [configured, hsum]
    omega
  · simp only [configured, hsum, le_refl]
  · exact h.interval.imp (fun hdoubl => ⟨hdoubl, rfl⟩) id

/-- An instance is joined safely. -/
theorem sound_join (h : Acceptable rplOf dio) (dioSendOk : Bool) (env : Env) :
    (join dio dioSendOk env).All Computation.Safe ∧
      Sound rplOf (join dio dioSendOk env).value := by
  obtain ⟨hall, hsound⟩ := (sound_configured h dioSendOk).resetDioTimer env
  obtain ⟨hall', hsound'⟩ := hsound.scheduleDao env
  simp only [join, Log.all_bind, Log.value_bind, Log.all_ite, Log.value_ite]
  refine ⟨⟨hall, fun _ => hall', fun _ => Log.all_pure _⟩, ?_⟩
  split
  · exact hsound'
  · exact hsound

/-! ### Unsafe runs -/

/-- A step with a link-local address, in which no random delay is added. -/
def calm : Env := ⟨true, 0, false⟩

theorem toNat_succ (n : UInt8) (h : n.toNat < 255) : (n + 1).toNat = n.toNat + 1 := by
  have hone : (1 : UInt8).toNat = 1 := rfl
  rw [UInt8.toNat_add, hone]
  exact Nat.mod_eq_of_lt (by omega)

/-- The state when a DIO was sent. -/
def sent (t : Timers) : Timers :=
  { t with dioSendOk := true, dioSend := false, dioTimer := true, due := t.due + t.dioNextDelay }

/-- The doubled interval, behind a DIO that was sent. -/
def doubled (t : Timers) : Log Computation Timers :=
  newDioInterval { t.sent with dioIntcurrent := t.dioIntcurrent + 1 } calm

/-- The DIO is sent. -/
theorem step_send (hset : t.dioTimer = true) (hsend : t.dioSend = true) :
    (t.step rplOf calm .dioTimer).value = t.sent := by
  simp [Timers.step, hset, Timers.handleDioTimer, calm, hsend, sent]

/-- The interval is doubled. -/
theorem step_double (hlt : t.dioIntcurrent.toNat < t.dioIntmin.toNat + t.dioIntdoubl.toNat) :
    t.sent.step rplOf calm .dioTimer = t.doubled := by
  simp [Timers.step, Timers.handleDioTimer, calm, doubled, sent, hlt]

/-- Doublings beyond `2 ^ 22` ms overflow after enough expiries. -/
theorem exists_overflow (k : Nat) (hset : t.dioTimer = true) (hsend : t.dioSend = true)
    (hk : t.dioIntcurrent.toNat + k = 22) (hsum : 22 < t.dioIntmin.toNat + t.dioIntdoubl.toNat) :
    ∃ es, Ready rplOf t es ∧ ¬SafeRun rplOf t es := by
  induction k generalizing t with
  | zero =>
      refine ⟨[(calm, .dioTimer), (calm, .dioTimer)],
        ⟨fun _ => Or.inr rfl, fun _ => Or.inr rfl, trivial⟩, ?_⟩
      rintro ⟨-, -, -, hall, -⟩
      rw [step_send hset hsend, step_double (by omega), doubled, newDioInterval_all] at hall
      have hnext := toNat_succ t.dioIntcurrent (by omega)
      dsimp only at hall
      omega
  | succ k ih =>
      have hnext := toNat_succ t.dioIntcurrent (by omega)
      have hk' : t.doubled.value.dioIntcurrent.toNat + k = 22 := by
        have hexp : t.doubled.value.dioIntcurrent = t.dioIntcurrent + 1 := rfl
        rw [hexp]
        omega
      obtain ⟨es, hready, hunsafe⟩ := ih (t := t.doubled.value) rfl rfl hk' hsum
      refine ⟨(calm, .dioTimer) :: (calm, .dioTimer) :: es,
        ⟨fun _ => Or.inr rfl, fun _ => Or.inr rfl, ?_⟩, ?_⟩
      · rwa [step_send hset hsend, step_double (by omega)]
      · rintro ⟨-, -, -, -, hsafe⟩
        rw [step_send hset hsend, step_double (by omega)] at hsafe
        exact hunsafe hsafe

theorem not_safe (k : Nat) (hset : t.dioTimer = true) (hsend : t.dioSend = true)
    (hk : t.dioIntcurrent.toNat + k = 22) (hsum : 22 < t.dioIntmin.toNat + t.dioIntdoubl.toNat) :
    ¬∀ es, Ready rplOf t es → SafeRun rplOf t es := by
  intro h
  obtain ⟨es, hready, hunsafe⟩ := exists_overflow k hset hsend hk hsum
  exact hunsafe (h es hready)

/-- A scheduled DAO changes the DAO timers only. -/
theorem scheduleDao_value (t : Timers) (env : Env) :
    ∃ dao lifetime, (t.scheduleDao env).value =
      { t with daoTimer := dao, daoLifetimeTimer := lifetime } := by
  rw [Timers.scheduleDao]
  split
  · exact ⟨_, _, rfl⟩
  · rw [Timers.setDaoLifetimeTimer]
    split
    · exact ⟨_, _, rfl⟩
    · split <;> exact ⟨_, _, rfl⟩

theorem join_value (dio : Dio) (dioSendOk : Bool) (env : Env) :
    ∃ dao lifetime, (join dio dioSendOk env).value =
      { ((configured dio dioSendOk).resetDioTimer env).value with
        daoTimer := dao, daoLifetimeTimer := lifetime } := by
  simp only [join, Log.value_bind, Log.value_ite]
  split
  · exact scheduleDao_value _ _
  · exact ⟨_, _, rfl⟩

/-- Until a timer expires, the configuration is that of the DIO. -/
theorem reset_configured (dio : Dio) (dioSendOk : Bool) (env : Env) :
    ((configured dio dioSendOk).resetDioTimer env).value.minHoprankinc = dio.dagMinHoprankinc ∧
      ((configured dio dioSendOk).resetDioTimer env).value.maxRankinc = dio.dagMaxRankinc := by
  rw [Timers.resetDioTimer]
  split <;> exact ⟨rfl, rfl⟩

/-- A division by zero in a parent event. -/
theorem divides_of_safe {rplOf : ObjectiveFunction}
    (h : ∀ es, Ready rplOf t es → SafeRun rplOf t es) :
    Divides rplOf t.minHoprankinc t.maxRankinc := by
  by_contra hnot
  have hzero : t.minHoprankinc = 0 := by
    by_contra hne
    exact hnot (Or.inl hne)
  by_cases hmax : t.maxRankinc = 0
  · cases rplOf with
    | mrhof => exact hnot (Or.inr ⟨hmax, rfl⟩)
    | of0 =>
        obtain ⟨-, hall, -⟩ := h [(calm, .bestParent 0 0)] ⟨by simp, trivial⟩
        simp [Timers.step, bestParent, dagRank, Computation.Safe, hzero] at hall
  · obtain ⟨-, hall, -⟩ := h [(calm, .acceptableRank 0 0)] ⟨by simp, trivial⟩
    have hrank : (0 : UInt16) ≠ infiniteRank := by decide
    simp [Timers.step, Timers.acceptableRank, dagRank, Computation.Safe, hzero, hmax, hrank] at hall

/-- The start of the timers in a configuration with doublings. -/
theorem reset_configured_eq (hdoubl : 0 < dio.dagIntdoubl.toNat)
    (hsum : dio.dagIntmin.toNat + dio.dagIntdoubl.toNat < 256) (env : Env) :
    (configured dio dioSendOk).resetDioTimer env =
      newDioInterval { configured dio dioSendOk with
        dioCounter := 0, dioIntcurrent := dio.dagIntmin } env := by
  have hlt : dio.dagIntmin < dio.dagIntmin + dio.dagIntdoubl := by
    rw [UInt8.lt_iff_toNat_lt, UInt8.toNat_add, Nat.mod_eq_of_lt hsum]
    omega
  exact if_pos hlt

/-- An interval that does not fit, or one of a single ms, is scheduled by some run. -/
theorem interval_of_safe
    (hall : ((configured dio dioSendOk).resetDioTimer calm).All Computation.Safe)
    (hrun : ∀ es, Ready rplOf (join dio dioSendOk calm).value es →
      SafeRun rplOf (join dio dioSendOk calm).value es) :
    dio.dagIntdoubl = 0 ∨
      0 < dio.dagIntmin.toNat ∧ dio.dagIntmin.toNat + dio.dagIntdoubl.toNat ≤ 22 := by
  obtain ⟨dao, lifetime, hjoin⟩ := join_value dio dioSendOk calm
  rw [hjoin] at hrun
  have hrange : InRange _ := hrun [] trivial
  by_contra hnot
  have hdoubl : 0 < dio.dagIntdoubl.toNat := by
    by_contra hzero
    have hzero' : dio.dagIntdoubl.toNat = (0 : UInt8).toNat := by simpa using hzero
    exact hnot (Or.inl (UInt8.toNat_inj.mp hzero'))
  by_cases hsum : dio.dagIntmin.toNat + dio.dagIntdoubl.toNat < 256
  · rw [reset_configured_eq hdoubl hsum] at hall hrun hrange
    have hmin : dio.dagIntmin.toNat ≤ 22 := (newDioInterval_all _ _).mp hall
    by_cases hpos : 0 < dio.dagIntmin.toNat
    · have hlarge : 22 < dio.dagIntmin.toNat + dio.dagIntdoubl.toNat := by
        by_contra hle
        exact hnot (Or.inr ⟨hpos, by omega⟩)
      refine not_safe (22 - dio.dagIntmin.toNat) ?_ ?_ ?_ hlarge hrun
      · rfl
      · rfl
      · simp only [newDioInterval, Log.value_bind, Log.value_pure]
        omega
    · have hzero : dio.dagIntmin.toNat = 0 := by omega
      have hscheduled := hrange.scheduled rfl rfl
      simp [newDioInterval, Computation.Safe, hzero, clockSecond, calm] at hscheduled
  · have hwrap : (dio.dagIntmin + dio.dagIntdoubl).toNat < dio.dagIntmin.toNat := by
      have hlt := dio.dagIntmin.toNat_lt
      have hlt' := dio.dagIntdoubl.toNat_lt
      rw [UInt8.toNat_add]
      omega
    have hkeep : (configured dio dioSendOk).resetDioTimer calm =
        pure (configured dio dioSendOk) := by
      apply if_neg
      rw [UInt8.lt_iff_toNat_lt]
      simp only [configured]
      omega
    rw [hkeep] at hrange
    have hlow := UInt8.le_iff_toNat_le.mp hrange.low
    simp only [Log.value_pure, configured] at hlow
    omega

/-- A lifetime that does not fit overflows when the instance is joined. -/
theorem lifetime_of_safe (hmop : dio.mop = mopDefault)
    (hall : (join dio dioSendOk calm).All Computation.Safe) :
    LifetimeFits dio.lifetimeUnit dio.defaultLifetime := by
  have hkeep : ((configured dio dioSendOk).resetDioTimer calm).value.mop = dio.mop ∧
      ((configured dio dioSendOk).resetDioTimer calm).value.daoTimer = false ∧
      ((configured dio dioSendOk).resetDioTimer calm).value.lifetimeUnit = dio.lifetimeUnit ∧
      ((configured dio dioSendOk).resetDioTimer calm).value.defaultLifetime =
        dio.defaultLifetime := by
    rw [Timers.resetDioTimer]
    split <;> exact ⟨rfl, rfl, rfl, rfl⟩
  have hmode : dio.mop ≠ mopNoDownwardRoutes := by
    rw [hmop]
    decide
  rw [join, Log.all_bind] at hall
  generalize ((configured dio dioSendOk).resetDioTimer calm).value = t at hkeep hall
  obtain ⟨hmop', hdao, hunit, hdefault⟩ := hkeep
  have hschedule := hall.2
  rw [Log.all_ite, hmop'] at hschedule
  have hset := hschedule.1 hmode
  by_contra hnot
  simp only [LifetimeFits, not_or] at hnot
  obtain ⟨hunit', hdefault', hlarge⟩ := hnot
  simp [Timers.scheduleDao, hdao, calm, Timers.setDaoLifetimeTimer, hunit, hdefault, hunit',
    hdefault', Computation.Safe] at hset
  exact hlarge hset

/-- With the configuration of a DIO that is accepted, every computation of every run fits,
and every DIO is scheduled in its interval, if and only if the configuration is acceptable. -/
theorem safe_iff_acceptable (hmop : dio.mop = mopDefault) :
    (∀ env es, Ready rplOf (join dio dioSendOk env).value es →
      (join dio dioSendOk env).All Computation.Safe ∧
        SafeRun rplOf (join dio dioSendOk env).value es) ↔ Acceptable rplOf dio := by
  constructor
  · intro h
    have hall := (h calm [] trivial).1
    have hrun es (hready : Ready rplOf (join dio dioSendOk calm).value es) :=
      (h calm es hready).2
    obtain ⟨hmin, hmax⟩ := reset_configured dio dioSendOk calm
    obtain ⟨dao, lifetime, hjoin⟩ := join_value dio dioSendOk calm
    constructor
    · have hdivides := divides_of_safe hrun
      rwa [hjoin, hmin, hmax] at hdivides
    · rw [join, Log.all_bind] at hall
      exact interval_of_safe hall.1 hrun
    · exact lifetime_of_safe hmop hall
  · intro h env es hready
    obtain ⟨hall, hsound⟩ := sound_join h dioSendOk env
    exact ⟨hall, hsound.safeRun hready⟩

/-- The default configuration. -/
theorem safe_iff_acceptable_default :
    (∀ env es,
      Ready .mrhof (join { Dio.default .mrhof with mop := mopDefault } false env).value es →
      (join { Dio.default .mrhof with mop := mopDefault } false env).All Computation.Safe ∧
        SafeRun .mrhof (join { Dio.default .mrhof with mop := mopDefault } false env).value es) ↔
      Acceptable .mrhof { Dio.default .mrhof with mop := mopDefault } :=
  safe_iff_acceptable rfl

/-- With a minimal rank increase of zero, the first parent event divides by zero. -/
theorem not_safe_zero_hoprank :
    ¬∀ (rplOf : ObjectiveFunction) (dio : Dio) (dioSendOk : Bool) (env : Env)
      (es : List (Env × Event)), dio.mop = mopDefault →
        Ready rplOf (join dio dioSendOk env).value es →
          (join dio dioSendOk env).All Computation.Safe ∧
            SafeRun rplOf (join dio dioSendOk env).value es := by
  intro h
  obtain ⟨-, -, hall, -⟩ := h .mrhof
    { Dio.default .mrhof with mop := mopDefault, dagMinHoprankinc := 0 } false calm
    [(calm, .acceptableRank 256 256)] rfl ⟨by simp, trivial⟩
  have hentry : Computation.divide 0 ∈ (Timers.step .mrhof
      (join { Dio.default .mrhof with mop := mopDefault, dagMinHoprankinc := 0 } false calm).value
      calm (.acceptableRank 256 256)).entries := by
    decide +kernel
  exact hall _ hentry rfl

end Timers

end Calipso.Rpl
