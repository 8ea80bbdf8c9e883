import Calipso.Trickle.Timer
import Mathlib.Data.Nat.Bitwise
import Mathlib.Tactic.Ring

/-!
# Conformance of trickle timers

The intervals of RFC 6206 as a machine that reads the log of a timer. A timer follows it as long
as no interval is begun from inside the protocol callback and the callbacks of `ct` are not
delayed beyond the interval that they belong to.
-/

namespace Calipso.Trickle

/-! ### The standard -/

/-- An interval, with the consistencies that were counted and whether the protocol callback was
called. -/
structure Interval where
  start : Nat
  length : Nat
  count : Nat
  fired : Bool

/-- The interval behind an entry of the log, for lengths from `iMin` to `iMax` and the redundancy
constant `k`; nothing when the entry must not be there. -/
def follow (iMin iMax k : Nat) : Option Interval → Entry → Option (Option Interval)
  | _, .begin now iStart iCur =>
    if iMin ≤ iCur.toNat ∧ iCur.toNat ≤ iMax ∧ iStart = clockTime now then
      some (some ⟨now, iCur.toNat, 0, false⟩)
    else none
  | some v, .callback now allow =>
    if v.fired = false ∧ v.start + v.length / 2 ≤ now ∧ now < v.start + v.length ∧
        allow = decide (v.count < k) then
      some (some { v with fired := true })
    else none
  | some v, .next now iStart iCur =>
    if v.fired = true ∧ v.start + v.length ≤ now ∧ iStart = clockTime (v.start + v.length) ∧
        iCur.toNat = min (2 * v.length) iMax then
      some (some ⟨v.start + v.length, iCur.toNat, 0, false⟩)
    else none
  | some v, .consistency => some (some { v with count := v.count + 1 })
  | none, .consistency => some none
  | _, .stop => some none
  | none, .callback _ _ => none
  | none, .next _ _ _ => none

/-- The configuration was accepted, and `Imin * 2 ^ Imax` does not overflow. -/
structure Timer.Configured (tt : Timer) : Prop where
  two_le : 2 ≤ tt.iMin.toNat
  iMaxAbs : tt.iMaxAbs.toNat = tt.iMin.toNat * 2 ^ tt.iMax.toNat
  le : tt.iMaxAbs.toNat ≤ 2 ^ 31
  k : tt.k ≠ 0

/-- The log of the timer is one of the standard, and `o` is the interval behind it. -/
def Timer.Follows (tt : Timer) (o : Option Interval) : Prop :=
  tt.log.foldlM (follow tt.iMin.toNat (tt.iMin.toNat * 2 ^ tt.iMax.toNat) tt.k.toNat) none = some o

/-- The fields of the timer for the interval `v`. -/
structure Timer.Inside (tt : Timer) (v : Interval) : Prop where
  length : tt.iCur.toNat = v.length
  start : tt.iStart = clockTime v.start
  count : tt.c.toNat = min v.count 255
  low : tt.iMin.toNat ≤ v.length
  high : v.length ≤ tt.iMaxAbs.toNat

/-- The callback that is pending: the protocol callback has its time in the second half of the
interval, and behind it the next interval begins when this one ends. -/
def Timer.Pending (tt : Timer) : Option Interval → Prop
  | none => tt.iCur = 0 ∧ tt.ct = none
  | some v =>
    tt.Inside v ∧
      if v.fired then tt.ct = some (v.start + v.length, .doubleInterval)
      else ∃ due, tt.ct = some (due, .fire) ∧ v.start + v.length / 2 ≤ due ∧
        due < v.start + v.length

/-- The timer conforms to the standard. -/
def Timer.Conforms (tt : Timer) : Prop := tt.Configured ∧ ∃ o, tt.Follows o ∧ tt.Pending o

/-! ### The condition -/

/-- The call begins no interval. -/
def Call.KeepsInterval (tt : Timer) : Call → Prop
  | .inconsistency _ => tt.iCur = tt.iMin
  | .set _ _ => False
  | _ => True

/-- No interval is begun from inside the protocol callback. -/
def Quiet (now : Nat) (tt : Timer) : List Call → Prop
  | [] => True
  | c :: cs => c.KeepsInterval tt ∧ Quiet now (c.run now tt) cs

/-- The protocol callback is called before the interval is over and begins no interval, and the
next interval is begun before it is over itself. -/
def Event.Regular (tt : Timer) : Event → Prop
  | .call _ _ => True
  | .expire now _ calls =>
    match tt.ct with
    | none => True
    | some (due, .fire) =>
      now < due + (tt.intervalEnd - clockTime due).toNat ∧
        Quiet now
          { tt with ct := none, log := tt.log ++ [.callback now tt.protoTxAllow] } calls
    | some (due, .doubleInterval) => now < due + min (2 * tt.iCur.toNat) tt.iMaxAbs.toNat

/-- Every event of the run is regular where it happens. -/
def Regular (tt : Timer) : List Event → Prop
  | [] => True
  | e :: es => e.Regular tt ∧ Regular (e.step tt) es

variable {tt : Timer} {now : Nat} {o : Option Interval} {v : Interval}

/-! ### Configurations -/

/-- A number with no bit from `j` on is small. -/
theorem lt_of_and_eq_zero {n j : Nat} (hn : n < 2 ^ 32) (hj : j ≤ 32)
    (h : n &&& (2 ^ (32 - j) - 1) <<< j = 0) : n < 2 ^ j := by
  have hshift : (n &&& (2 ^ (32 - j) - 1) <<< j) >>> j = n / 2 ^ j := by
    have hlt : n / 2 ^ j < 2 ^ (32 - j) := by
      rw [Nat.div_lt_iff_lt_mul (Nat.two_pow_pos j), ← pow_add, Nat.sub_add_cancel hj]
      exact hn
    rw [Nat.shiftRight_and_distrib, Nat.shiftLeft_shiftRight, Nat.and_two_pow_sub_one_eq_mod,
      Nat.shiftRight_eq_div_pow, Nat.mod_eq_of_lt hlt]
  rw [h, Nat.zero_shiftRight] at hshift
  exact (Nat.div_eq_zero_iff_lt (Nat.two_pow_pos j)).mp hshift.symm

/-- The value of `max_imax` is the one it began with, moved by `zeros` bits. -/
def Moved (v : UInt32) (s : UInt32 × UInt32 × UInt8) (mask : UInt32) (zeros : Nat) : Prop :=
  s.1 = mask ∧ s.2.1.toNat = v.toNat * 2 ^ s.2.2.toNat ∧ s.2.2.toNat ≤ zeros

theorem moved_round {v mask mask' : UInt32} {s : UInt32 × UInt32 × UInt8} {zeros j : Nat}
    {i : UInt32} (h : Moved v s mask zeros) (hmask : mask <<< i = mask') (hi : i.toNat + j = 32)
    (hj : 0 < j) (hzeros : zeros + i.toNat < 256)
    (hmask' : mask'.toNat = (2 ^ (32 - j) - 1) <<< j) :
    Moved v (maxImaxRound s i) mask' (zeros + i.toNat) := by
  obtain ⟨hs, hvalue, hle⟩ := h
  unfold maxImaxRound
  dsimp only
  rw [hs, hmask]
  by_cases hand : s.2.1 &&& mask' = 0
  · have hlt : s.2.1.toNat < 2 ^ j := by
      apply lt_of_and_eq_zero s.2.1.toNat_lt (by omega)
      rw [← hmask', ← UInt32.toNat_and, hand, UInt32.toNat_zero]
    have hmod : i.toNat % 32 = i.toNat := Nat.mod_eq_of_lt (by omega)
    have hsmall : s.2.1.toNat * 2 ^ i.toNat < 2 ^ 32 := by
      calc s.2.1.toNat * 2 ^ i.toNat < 2 ^ j * 2 ^ i.toNat :=
            Nat.mul_lt_mul_of_pos_right hlt (Nat.two_pow_pos _)
        _ = 2 ^ 32 := by rw [← pow_add, add_comm, hi]
    have hi8 : i.toUInt8.toNat = i.toNat := by
      rw [UInt32.toNat_toUInt8, Nat.mod_eq_of_lt (by omega)]
    have hsum : (s.2.2 + i.toUInt8).toNat = s.2.2.toNat + i.toNat := by
      rw [UInt8.toNat_add, hi8, Nat.mod_eq_of_lt (by omega)]
    rw [if_pos hand]
    refine ⟨rfl, ?_, ?_⟩
    · show (s.2.1 <<< i).toNat = _
      rw [UInt32.toNat_shiftLeft, hmod, Nat.shiftLeft_eq, Nat.mod_eq_of_lt hsmall, hvalue, hsum,
        pow_add, mul_assoc]
    · show (s.2.2 + i.toUInt8).toNat ≤ _
      omega
  · rw [if_neg hand]
    exact ⟨rfl, hvalue, by show s.2.2.toNat ≤ _; omega⟩

/-- Where there is room for a doubling a bit is found. -/
theorem zeros_pos {iMin : UInt32} {s : UInt32 × UInt32 × UInt8} (hlt : iMin.toNat < 2 ^ 31)
    (h : Moved (iMin - 1) s 0xc0000000 30) (hone : 1 ≤ iMin.toNat) :
    1 ≤ (maxImaxRound s 1).2.2.toNat := by
  obtain ⟨hs, hvalue, hle⟩ := h
  have hsub : (iMin - 1).toNat = iMin.toNat - 1 := by
    rw [UInt32.toNat_sub_of_le _ _ (by rwa [UInt32.le_iff_toNat_le, UInt32.toNat_one]),
      UInt32.toNat_one]
  unfold maxImaxRound
  dsimp only
  rw [hs]
  by_cases hand : s.2.1 &&& (0xc0000000 : UInt32) <<< 1 = 0
  · rw [if_pos hand]
    show 1 ≤ (s.2.2 + 1).toNat
    rw [UInt8.toNat_add, UInt8.toNat_one, Nat.mod_eq_of_lt (by omega)]
    omega
  · rw [if_neg hand]
    show 1 ≤ s.2.2.toNat
    by_contra hzero
    have hzero : s.2.2.toNat = 0 := by omega
    apply hand
    apply UInt32.toNat_inj.mp
    have hmask : ((0xc0000000 : UInt32) <<< 1).toNat = 2 ^ 31 := rfl
    have hsmall : s.2.1.toNat < 2 ^ 31 := by
      rw [hvalue, hzero, hsub]
      omega
    rw [UInt32.toNat_and, hmask, Nat.and_two_pow, Nat.testBit_lt_two_pow hsmall]
    rfl

/-- The largest number of doublings for which there is room. -/
theorem maxImax_spec {iMin : UInt32} (hbad : iminIsBad iMin = false) :
    (maxImax iMin).toNat < 31 ∧ iMin.toNat ≤ 2 ^ (31 - (maxImax iMin).toNat) := by
  have hrange : 2 ≤ iMin.toNat ∧ iMin.toNat < 2 ^ 31 := by
    simp only [iminIsBad, clockMax, Bool.or_eq_false_iff, decide_eq_false_iff_not,
      UInt32.lt_iff_toNat_lt, not_lt] at hbad
    have hmax : ((0xffffffff : UInt32) >>> 1).toNat = 2 ^ 31 - 1 := rfl
    have htwo : (2 : UInt32).toNat = 2 := rfl
    omega
  have hsub : (iMin - 1).toNat = iMin.toNat - 1 := by
    rw [UInt32.toNat_sub_of_le _ _ (by rw [UInt32.le_iff_toNat_le, UInt32.toNat_one]; omega),
      UInt32.toNat_one]
  have h0 : Moved (iMin - 1) (0xffff, iMin - 1, 0) 0xffff 0 := ⟨rfl, by simp, le_rfl⟩
  have h1 := moved_round (i := 16) (j := 16) h0 rfl rfl (by decide) (by decide) rfl
  have h2 := moved_round (i := 8) (j := 24) h1 rfl rfl (by decide) (by decide) rfl
  have h3 := moved_round (i := 4) (j := 28) h2 rfl rfl (by decide) (by decide) rfl
  have h4 := moved_round (i := 2) (j := 30) h3 rfl rfl (by decide) (by decide) rfl
  have h5 := moved_round (i := 1) (j := 31) h4 rfl rfl (by decide) (by decide) rfl
  have hzeros := zeros_pos hrange.2 h4 (by omega)
  have hfold : maxImax iMin = (maxImaxRound (maxImaxRound (maxImaxRound (maxImaxRound
      (maxImaxRound (0xffff, iMin - 1, 0) 16) 8) 4) 2) 1).2.2 - 1 := rfl
  rw [hfold]
  generalize maxImaxRound (maxImaxRound (maxImaxRound (maxImaxRound
      (maxImaxRound (0xffff, iMin - 1, 0) 16) 8) 4) 2) 1 = s at h5 hzeros
  obtain ⟨-, hvalue, hle⟩ := h5
  have hone : (s.2.2 - 1).toNat = s.2.2.toNat - 1 := by
    rw [UInt8.toNat_sub_of_le _ _ (by rw [UInt8.le_iff_toNat_le, UInt8.toNat_one]; omega),
      UInt8.toNat_one]
  have hlt := s.2.1.toNat_lt
  rw [hvalue, hsub] at hlt
  have hle31 : s.2.2.toNat ≤ 31 := hle
  have hsplit : 2 ^ 32 = 2 ^ (32 - s.2.2.toNat) * 2 ^ s.2.2.toNat := by
    rw [← pow_add, Nat.sub_add_cancel (by omega)]
  rw [hsplit] at hlt
  have hlt' := Nat.lt_of_mul_lt_mul_right hlt
  have hexp : 31 - (s.2.2.toNat - 1) = 32 - s.2.2.toNat := by omega
  rw [hone, hexp]
  omega

theorem configured_of_config {tt₀ : Timer} {iMin : UInt32} {iMax k : UInt8}
    (h : config tt₀ iMin iMax k = some tt) (hmax : iMax.toNat < 31) :
    tt.Configured ∧ tt.log = tt₀.log := by
  by_cases hbad : iminIsBad iMin = true
  · simp [config, hbad] at h
  by_cases harg : iMax = 0 ∨ k = 0
  · simp [config, hbad, harg] at h
  rw [config, if_neg hbad, if_neg harg] at h
  have hbad : iminIsBad iMin = false := by simpa using hbad
  have hk : k ≠ 0 := fun hk => harg (.inr hk)
  have htwo : 2 ≤ iMin.toNat := by
    simp only [iminIsBad, Bool.or_eq_false_iff, decide_eq_false_iff_not, UInt32.lt_iff_toNat_lt,
      not_lt] at hbad
    exact hbad.1
  have hroom : (if ipairIsBad iMin iMax then maxImax iMin else iMax).toNat < 31 ∧
      iMin.toNat ≤ 2 ^ (31 - (if ipairIsBad iMin iMax then maxImax iMin else iMax).toNat) := by
    by_cases hpair : ipairIsBad iMin iMax = true
    · rw [if_pos hpair]
      exact maxImax_spec hbad
    · rw [if_neg hpair]
      refine ⟨hmax, ?_⟩
      have hcount : (iMax.toUInt32 + 1).toNat = iMax.toNat + 1 := by
        rw [UInt32.toNat_add, UInt8.toNat_toUInt32, UInt32.toNat_one, Nat.mod_eq_of_lt (by omega)]
      have hsub : (iMin - 1).toNat = iMin.toNat - 1 := by
        rw [UInt32.toNat_sub_of_le _ _ (by rw [UInt32.le_iff_toNat_le, UInt32.toNat_one]; omega),
          UInt32.toNat_one]
      have hclock : clockMax.toNat = 2 ^ 32 - 1 := rfl
      have hle : (iMin - 1).toNat ≤ (clockMax >>> (iMax.toUInt32 + 1)).toNat := by
        simpa [ipairIsBad, UInt32.lt_iff_toNat_lt] using hpair
      rw [hsub, UInt32.toNat_shiftRight, hcount, Nat.mod_eq_of_lt (by omega), hclock,
        Nat.shiftRight_eq_div_pow] at hle
      have hdiv : (2 ^ 32 - 1) / 2 ^ (iMax.toNat + 1) < 2 ^ (31 - iMax.toNat) := by
        rw [Nat.div_lt_iff_lt_mul (Nat.two_pow_pos _), ← pow_add,
          show 31 - iMax.toNat + (iMax.toNat + 1) = 32 by omega]
        decide
      omega
  obtain rfl := Option.some.inj h
  generalize (if ipairIsBad iMin iMax then maxImax iMin else iMax) = m at hroom
  obtain ⟨hm, hle⟩ := hroom
  have hpow : iMin.toNat * 2 ^ m.toNat ≤ 2 ^ 31 := by
    calc iMin.toNat * 2 ^ m.toNat ≤ 2 ^ (31 - m.toNat) * 2 ^ m.toNat :=
          Nat.mul_le_mul_right _ hle
      _ = 2 ^ 31 := by rw [← pow_add, Nat.sub_add_cancel (by omega)]
  have habs : (iMin <<< m.toUInt32).toNat = iMin.toNat * 2 ^ m.toNat := by
    have hmod : m.toNat % 32 = m.toNat := Nat.mod_eq_of_lt (by omega)
    rw [UInt32.toNat_shiftLeft, UInt8.toNat_toUInt32, hmod, Nat.shiftLeft_eq,
      Nat.mod_eq_of_lt (by omega)]
  exact ⟨⟨htwo, habs, by rw [habs]; exact hpow, hk⟩, rfl⟩

/-! ### Times -/

/-- The time of the protocol callback is drawn from the second half of the interval. -/
theorem getT_spec {iCur : UInt32} (rand : UInt32) (h : 2 ≤ iCur.toNat) :
    iCur.toNat / 2 ≤ (getT iCur rand).toNat ∧ (getT iCur rand).toNat < iCur.toNat := by
  have hhalf : (iCur >>> 1).toNat = iCur.toNat / 2 := by
    rw [UInt32.toNat_shiftRight]
    rfl
  have hrand : (rand % (iCur >>> 1)).toNat < iCur.toNat / 2 := by
    rw [UInt32.toNat_mod, hhalf]
    exact Nat.mod_lt _ (by omega)
  have hlt := iCur.toNat_lt
  have hsum : (getT iCur rand).toNat = iCur.toNat / 2 + (rand % (iCur >>> 1)).toNat := by
    unfold getT
    rw [UInt32.toNat_add, hhalf, Nat.mod_eq_of_lt (by omega)]
  omega

@[simp] theorem clockTime_add (a b : Nat) : clockTime (a + b) = clockTime a + clockTime b := by
  simp [clockTime]

/-- How far a time is ahead of the clock. -/
theorem toNat_clockTime_sub {a b : Nat} (hle : b ≤ a) (hlt : a - b < 2 ^ 32) :
    (clockTime a - clockTime b).toNat = a - b := by
  obtain ⟨d, rfl⟩ := Nat.exists_eq_add_of_le hle
  have hd : b + d - b = d := by omega
  rw [hd] at hlt
  rw [clockTime_add, hd, UInt32.add_comm, UInt32.add_sub_cancel]
  exact Nat.mod_eq_of_lt hlt

theorem toNat_ahead {t : UInt32} (h : t.toNat < 2 ^ 31) : (ahead t).toNat = t.toNat := by
  unfold ahead
  have hmax : (clockMax >>> 1).toNat = 2 ^ 31 - 1 := rfl
  rw [if_neg (by rw [UInt32.lt_iff_toNat_lt, hmax]; omega)]

theorem ahead_past {t : UInt32} (h : 2 ^ 31 ≤ t.toNat) : (ahead t).toNat = 0 := by
  unfold ahead
  have hmax : (clockMax >>> 1).toNat = 2 ^ 31 - 1 := rfl
  rw [if_pos (by rw [UInt32.lt_iff_toNat_lt, hmax]; omega)]
  rfl

/-- The callback is set for a time `t` behind the end of the last interval, or for now when that
has passed. -/
theorem add_toNat_ahead {s d : Nat} {t : UInt32} (ht : t.toNat < 2 ^ 31) (hd : d ≤ 2 ^ 31) :
    s + d + (ahead (clockTime s + t - clockTime (s + d))).toNat = max (s + d) (s + t.toNat) := by
  have htime : t = clockTime t.toNat := by simp [clockTime]
  have hdiff : clockTime s + t - clockTime (s + d) = clockTime t.toNat - clockTime d := by
    rw [← htime, clockTime_add]
    grind
  rw [hdiff]
  by_cases hpast : d ≤ t.toNat
  · have hsub := toNat_clockTime_sub hpast (by omega)
    rw [toNat_ahead (by omega), hsub]
    omega
  · have hneg : (clockTime t.toNat - clockTime d).toNat = 2 ^ 32 - (d - t.toNat) := by
      have hdt : (clockTime d).toNat = d := Nat.mod_eq_of_lt (by omega)
      rw [← htime, UInt32.toNat_sub, hdt]
      omega
    rw [ahead_past (by omega)]
    omega

/-! ### Intervals -/

/-- An entry is read behind the log. -/
theorem Timer.Follows.append {tt' : Timer} {o' : Option Interval} {e : Entry}
    (h : tt.Follows o) (hlog : tt'.log = tt.log ++ [e]) (hmin : tt'.iMin = tt.iMin)
    (hmax : tt'.iMax = tt.iMax) (hk : tt'.k = tt.k)
    (he : follow tt.iMin.toNat (tt.iMin.toNat * 2 ^ tt.iMax.toNat) tt.k.toNat o e = some o') :
    tt'.Follows o' := by
  unfold Timer.Follows at h ⊢
  rw [hlog, hmin, hmax, hk, List.foldlM_append, h]
  simp [he]

/-- A consistency is counted, up to a limit that is not below `k`. -/
theorem count_succ {c : UInt8} {n : Nat} (h : c.toNat = min n 255) :
    (if c < 0xff then c + 1 else c).toNat = min (n + 1) 255 := by
  by_cases hlt : c < 0xff
  · have hnat : c.toNat < 255 := UInt8.lt_iff_toNat_lt.mp hlt
    rw [if_pos hlt, UInt8.toNat_add, UInt8.toNat_one, Nat.mod_eq_of_lt (by omega)]
    omega
  · have hnat : ¬c.toNat < 255 := fun hnat => hlt (UInt8.lt_iff_toNat_lt.mpr hnat)
    rw [if_neg hlt]
    omega

theorem protoTxAllow_eq (hk : tt.k ≠ 0) {n : Nat} (h : tt.c.toNat = min n 255) :
    tt.protoTxAllow = decide (n < tt.k.toNat) := by
  have hlt := tt.k.toNat_lt
  have hiff : tt.c < tt.k ↔ n < tt.k.toNat := by
    rw [UInt8.lt_iff_toNat_lt, h]
    omega
  simp [Timer.protoTxAllow, hk, hiff]

/-- An interval of the length `iCur` begins. -/
theorem conforms_newInterval (hconf : tt.Configured) (hlog : tt.Follows o) {iCur : UInt32}
    (hlow : tt.iMin.toNat ≤ iCur.toNat) (hhigh : iCur.toNat ≤ tt.iMaxAbs.toNat)
    (now : Nat) (rand : UInt32) : (Timer.newInterval { tt with iCur := iCur } now rand).Conforms := by
  have hfollow : (Timer.newInterval { tt with iCur := iCur } now rand).Follows
      (some ⟨now, iCur.toNat, 0, false⟩) := by
    refine hlog.append rfl rfl rfl rfl ?_
    rw [← hconf.iMaxAbs]
    have hentry : tt.iMin.toNat ≤ iCur.toNat ∧ iCur.toNat ≤ tt.iMaxAbs.toNat ∧
        clockTime now = clockTime now := ⟨hlow, hhigh, rfl⟩
    cases o with
    | none => exact if_pos hentry
    | some v => exact if_pos hentry
  have htwo := hconf.two_le
  obtain ⟨hge, hlt⟩ := getT_spec rand (le_trans htwo hlow)
  refine ⟨⟨htwo, hconf.iMaxAbs, hconf.le, hconf.k⟩, _, hfollow, ?_, now + (getT iCur rand).toNat,
    rfl, ?_, ?_⟩
  · exact ⟨rfl, rfl, rfl, hlow, hhigh⟩
  · exact Nat.add_le_add_left hge now
  · exact Nat.add_lt_add_left hlt now

theorem conforms_set (hconf : tt.Configured) (hlog : tt.Follows o) (now : Nat)
    (rand rand' : UInt32) : (tt.set now rand rand').Conforms := by
  have hle := hconf.le
  have htwo := hconf.two_le
  have hmin : tt.iMin.toNat ≤ tt.iMaxAbs.toNat := by
    rw [hconf.iMaxAbs]
    exact Nat.le_mul_of_pos_right _ (Nat.two_pow_pos _)
  have hspan : (tt.iMaxAbs - tt.iMin + 1).toNat = tt.iMaxAbs.toNat - tt.iMin.toNat + 1 := by
    rw [UInt32.toNat_add, UInt32.toNat_sub_of_le _ _ (UInt32.le_iff_toNat_le.mpr hmin),
      UInt32.toNat_one, Nat.mod_eq_of_lt (by omega)]
  have hrand : (rand % (tt.iMaxAbs - tt.iMin + 1)).toNat ≤ tt.iMaxAbs.toNat - tt.iMin.toNat := by
    rw [UInt32.toNat_mod, hspan]
    exact Nat.le_of_lt_succ (Nat.mod_lt _ (Nat.succ_pos _))
  have hsum : (tt.iMin + rand % (tt.iMaxAbs - tt.iMin + 1)).toNat =
      tt.iMin.toNat + (rand % (tt.iMaxAbs - tt.iMin + 1)).toNat := by
    rw [UInt32.toNat_add, Nat.mod_eq_of_lt (by omega)]
  exact conforms_newInterval hconf hlog (by omega) (by omega) now rand'

theorem Timer.Inside.two_le (h : tt.Inside v) (hconf : tt.Configured) : 2 ≤ v.length :=
  le_trans hconf.two_le h.low

/-- A call from outside. -/
theorem conforms_call (h : tt.Conforms) (c : Call) (now : Nat) : (c.run now tt).Conforms := by
  obtain ⟨hconf, o, hlog, hpending⟩ := h
  cases c with
  | consistency =>
      refine ⟨⟨hconf.two_le, hconf.iMaxAbs, hconf.le, hconf.k⟩, ?_⟩
      cases o with
      | none => exact ⟨none, hlog.append rfl rfl rfl rfl rfl, hpending⟩
      | some v =>
          obtain ⟨hinside, hct⟩ := hpending
          exact ⟨some { v with count := v.count + 1 }, hlog.append rfl rfl rfl rfl rfl,
            ⟨hinside.length, hinside.start, count_succ hinside.count, hinside.low, hinside.high⟩,
            hct⟩
  | inconsistency rand =>
      rw [Call.run, Timer.inconsistency]
      split_ifs with hcur
      · have hmin : tt.iMin.toNat ≤ tt.iMaxAbs.toNat := by
          rw [hconf.iMaxAbs]
          exact Nat.le_mul_of_pos_right _ (Nat.two_pow_pos _)
        exact conforms_newInterval hconf hlog le_rfl hmin now rand
      · exact ⟨hconf, o, hlog, hpending⟩
  | set rand rand' => exact conforms_set hconf hlog now rand rand'
  | stop =>
      refine ⟨⟨hconf.two_le, hconf.iMaxAbs, hconf.le, hconf.k⟩, none, ?_, rfl, rfl⟩
      refine hlog.append rfl rfl rfl rfl ?_
      cases o <;> rfl

/-! ### The end of an interval -/

/-- The next interval begins. -/
theorem conforms_doubleInterval (hconf : tt.Configured) (hlog : tt.Follows (some v))
    (hinside : tt.Inside v) (hfired : v.fired = true) (hle : v.start + v.length ≤ now)
    (hnow : now < v.start + v.length + min (2 * tt.iCur.toNat) tt.iMaxAbs.toNat) (rand : UInt32) :
    (tt.doubleInterval now rand).Conforms := by
  have hmax := hconf.le
  have htwo := hinside.two_le hconf
  have hlength := hinside.length
  have hhigh := hinside.high
  have hlow := hinside.low
  have hcur : (if tt.iCur ≤ tt.iMaxAbs >>> 1 then tt.iCur <<< 1 else tt.iMaxAbs).toNat =
      min (2 * v.length) tt.iMaxAbs.toNat := by
    have hhalf : (tt.iMaxAbs >>> 1).toNat = tt.iMaxAbs.toNat / 2 := by
      rw [UInt32.toNat_shiftRight]
      rfl
    by_cases hle : tt.iCur ≤ tt.iMaxAbs >>> 1
    · have hnat := UInt32.le_iff_toNat_le.mp hle
      have hone : (1 : UInt32).toNat % 32 = 1 := rfl
      rw [if_pos hle, UInt32.toNat_shiftLeft, hone, Nat.shiftLeft_eq, Nat.mod_eq_of_lt (by omega)]
      omega
    · have hnat : ¬tt.iCur.toNat ≤ (tt.iMaxAbs >>> 1).toNat :=
        fun hnat => hle (UInt32.le_iff_toNat_le.mpr hnat)
      rw [if_neg hle]
      omega
  have hend : tt.intervalEnd = clockTime (v.start + v.length) := by
    rw [Timer.intervalEnd, hinside.start, clockTime_add, ← hlength]
    simp [clockTime]
  unfold Timer.doubleInterval
  dsimp only
  rw [hend]
  generalize (if tt.iCur ≤ tt.iMaxAbs >>> 1 then tt.iCur <<< 1 else tt.iMaxAbs) = iCur at hcur
  obtain ⟨hge, hlt⟩ := getT_spec rand (show 2 ≤ iCur.toNat by omega)
  obtain ⟨d, rfl⟩ := Nat.exists_eq_add_of_le hle
  have hdue := add_toNat_ahead (s := v.start + v.length) (d := d) (t := getT iCur rand)
    (by omega) (by omega)
  refine ⟨⟨hconf.two_le, hconf.iMaxAbs, hmax, hconf.k⟩,
    some ⟨v.start + v.length, iCur.toNat, 0, false⟩, ?_, ⟨rfl, rfl, rfl, ?_, ?_⟩, _,
    congrArg some (congrArg (·, Callback.fire) hdue), ?_, ?_⟩
  · refine hlog.append rfl rfl rfl rfl ?_
    simp [follow, hfired, ← hconf.iMaxAbs, hcur]
  · show tt.iMin.toNat ≤ iCur.toNat
    omega
  · show iCur.toNat ≤ tt.iMaxAbs.toNat
    omega
  · show v.start + v.length + iCur.toNat / 2 ≤ _
    omega
  · show _ < v.start + v.length + iCur.toNat
    omega

/-! ### The protocol callback -/

/-- Within the protocol callback nothing is pending. -/
def Timer.Calling (tt : Timer) (o : Option Interval) : Prop :=
  tt.Configured ∧ tt.Follows o ∧ tt.ct = none ∧
    match o with
    | none => tt.iCur = 0
    | some v => tt.Inside v ∧ v.fired = true

/-- A call that begins no interval. -/
theorem calling_call {c : Call} (h : tt.Calling o) (hkeeps : c.KeepsInterval tt) (now : Nat) :
    ∃ o', (c.run now tt).Calling o' ∧
      ∀ v' ∈ o', ∃ v ∈ o, v'.start = v.start ∧ v'.length = v.length := by
  obtain ⟨hconf, hlog, hct, ho⟩ := h
  cases c with
  | consistency =>
      cases o with
      | none =>
          exact ⟨none, ⟨⟨hconf.two_le, hconf.iMaxAbs, hconf.le, hconf.k⟩,
            hlog.append rfl rfl rfl rfl rfl, hct, ho⟩, by simp⟩
      | some v =>
          obtain ⟨hinside, hfired⟩ := ho
          exact ⟨some { v with count := v.count + 1 },
            ⟨⟨hconf.two_le, hconf.iMaxAbs, hconf.le, hconf.k⟩, hlog.append rfl rfl rfl rfl rfl, hct,
              ⟨hinside.length, hinside.start, count_succ hinside.count, hinside.low,
                hinside.high⟩, hfired⟩, by simp⟩
  | inconsistency rand =>
      have hsame : tt.iCur = tt.iMin := hkeeps
      rw [Call.run, Timer.inconsistency, if_neg (by simpa using hsame)]
      exact ⟨o, ⟨hconf, hlog, hct, ho⟩, fun v hv => ⟨v, hv, rfl, rfl⟩⟩
  | set rand rand' => exact hkeeps.elim
  | stop =>
      refine ⟨none, ⟨⟨hconf.two_le, hconf.iMaxAbs, hconf.le, hconf.k⟩, ?_, rfl, rfl⟩, by simp⟩
      refine hlog.append rfl rfl rfl rfl ?_
      cases o <;> rfl

theorem calling_calls {cs : List Call} (h : tt.Calling o) (hquiet : Quiet now tt cs) :
    ∃ o', (cs.foldl (Call.run now) tt).Calling o' ∧
      ∀ v' ∈ o', ∃ v ∈ o, v'.start = v.start ∧ v'.length = v.length := by
  induction cs generalizing tt o with
  | nil => exact ⟨o, h, fun v hv => ⟨v, hv, rfl, rfl⟩⟩
  | cons c cs ih =>
      obtain ⟨o₁, h₁, hsame₁⟩ := calling_call h hquiet.1 now
      obtain ⟨o₂, h₂, hsame₂⟩ := ih h₁ hquiet.2
      refine ⟨o₂, h₂, fun v₂ hv₂ => ?_⟩
      obtain ⟨v₁, hv₁, hstart₁, hlength₁⟩ := hsame₂ v₂ hv₂
      obtain ⟨v, hv, hstart, hlength⟩ := hsame₁ v₁ hv₁
      exact ⟨v, hv, hstart₁.trans hstart, hlength₁.trans hlength⟩

/-- Behind the protocol callback the end of the interval is waited for. -/
theorem conforms_scheduleForEnd (h : tt.Calling o) (hnow : ∀ v ∈ o, v.start + v.length / 2 ≤ now ∧
    now < v.start + v.length) :
    (if tt.isRunning then tt.scheduleForEnd now else tt).Conforms := by
  obtain ⟨hconf, hlog, hct, ho⟩ := h
  cases o with
  | none =>
      have hzero : tt.iCur = 0 := ho
      rw [if_neg (by simp [Timer.isRunning, hzero])]
      exact ⟨hconf, none, hlog, hzero, hct⟩
  | some v =>
      obtain ⟨hinside, hfired⟩ := ho
      obtain ⟨hge, hlt⟩ := hnow v rfl
      have hmax := hconf.le
      have htwo := hinside.two_le hconf
      have hhigh := hinside.high
      have hrunning : tt.isRunning = true := by
        have hne : tt.iCur ≠ 0 := by
          intro hzero
          have hlength := hinside.length
          rw [hzero, UInt32.toNat_zero] at hlength
          omega
        simp [Timer.isRunning, hne]
      have hend : tt.intervalEnd = clockTime (v.start + v.length) := by
        rw [Timer.intervalEnd, hinside.start, clockTime_add, ← hinside.length]
        simp [clockTime]
      have hsub := toNat_clockTime_sub (a := v.start + v.length) (b := now) hlt.le (by omega)
      have hahead : (ahead (tt.intervalEnd - clockTime now)).toNat = v.start + v.length - now := by
        rw [hend, toNat_ahead (by omega), hsub]
      have hdue : now + (ahead (tt.intervalEnd - clockTime now)).toNat = v.start + v.length := by
        omega
      rw [if_pos hrunning]
      refine ⟨⟨hconf.two_le, hconf.iMaxAbs, hmax, hconf.k⟩, some v, hlog,
        ⟨hinside.length, hinside.start, hinside.count, hinside.low, hhigh⟩, ?_⟩
      rw [if_pos hfired, Timer.scheduleForEnd, Timer.ctimerSet, hdue]

/-! ### Runs -/

theorem conforms_step (h : tt.Conforms) (e : Event) (hregular : e.Regular tt) :
    (e.step tt).Conforms := by
  cases e with
  | call now c => exact conforms_call h c now
  | expire now rand calls =>
      obtain ⟨hconf, o, hlog, hpending⟩ := h
      cases o with
      | none =>
          have hct : tt.ct = none := hpending.2
          rw [Event.step, hct]
          exact ⟨hconf, none, hlog, hpending⟩
      | some v =>
          obtain ⟨hinside, hct⟩ := hpending
          by_cases hfired : v.fired = true
          · rw [if_pos hfired] at hct
            rw [Event.Regular, hct] at hregular
            rw [Event.step, hct]
            dsimp only
            split_ifs with hdue
            · exact conforms_doubleInterval ⟨hconf.two_le, hconf.iMaxAbs, hconf.le, hconf.k⟩ hlog
                ⟨hinside.length, hinside.start, hinside.count, hinside.low, hinside.high⟩ hfired
                hdue hregular rand
            · exact ⟨hconf, some v, hlog, hinside, by rw [if_pos hfired, hct]⟩
          · rw [if_neg hfired] at hct
            obtain ⟨due, hct, hge, hlt⟩ := hct
            rw [Event.Regular, hct] at hregular
            rw [Event.step, hct]
            dsimp only
            split_ifs with hdue
            · obtain ⟨hnow, hquiet⟩ := hregular
              have hend : (tt.intervalEnd - clockTime due).toNat = v.start + v.length - due := by
                have heq : tt.intervalEnd = clockTime (v.start + v.length) := by
                  rw [Timer.intervalEnd, hinside.start, clockTime_add, ← hinside.length]
                  simp [clockTime]
                have hmax := hconf.le
                have hhigh := hinside.high
                rw [heq, toNat_clockTime_sub hlt.le (by omega)]
              have hallow := protoTxAllow_eq hconf.k hinside.count
              have hcalling : Timer.Calling { tt with
                  ct := none, log := tt.log ++ [.callback now tt.protoTxAllow] }
                  (some { v with fired := true }) := by
                refine ⟨⟨hconf.two_le, hconf.iMaxAbs, hconf.le, hconf.k⟩, ?_, rfl,
                  ⟨hinside.length, hinside.start, hinside.count, hinside.low, hinside.high⟩, rfl⟩
                refine hlog.append rfl rfl rfl rfl ?_
                have hwindow : v.start + v.length / 2 ≤ now ∧ now < v.start + v.length := by omega
                simp [follow, hfired, hwindow.1, hwindow.2, hallow]
              obtain ⟨o', ho', hsame⟩ := calling_calls hcalling hquiet
              apply conforms_scheduleForEnd ho'
              intro v' hv'
              obtain ⟨v₁, hv₁, hstart, hlength⟩ := hsame v' hv'
              obtain rfl := Option.some.inj hv₁
              rw [hstart, hlength]
              exact ⟨by show v.start + v.length / 2 ≤ now; omega,
                by show now < v.start + v.length; omega⟩
            · exact ⟨hconf, some v, hlog, hinside, by
                rw [if_neg hfired]
                exact ⟨due, hct, hge, hlt⟩⟩

theorem conforms_run {es : List Event} (h : tt.Conforms) (hregular : Regular tt es) :
    (run tt es).Conforms := by
  induction es generalizing tt with
  | nil => exact h
  | cons e es ih => exact ih (conforms_step h e hregular.1) hregular.2

/-- A timer that is configured and set follows the standard behind every regular run. -/
theorem trickle_conforms {tt₀ tt : Timer} {iMin : UInt32} {iMax k : UInt8}
    (hconfig : config tt₀ iMin iMax k = some tt) (hmax : iMax.toNat < 31) (hlog : tt₀.log = [])
    (now : Nat) (rand rand' : UInt32) (es : List Event)
    (hregular : Regular (tt.set now rand rand') es) :
    (run (tt.set now rand rand') es).Conforms := by
  obtain ⟨hconf, hnil⟩ := configured_of_config hconfig hmax
  apply conforms_run _ hregular
  apply conforms_set hconf (o := none)
  rw [Timer.Follows, hnil, hlog]
  rfl

/-- A timer with intervals from 4 to 16 ticks, before it is set. -/
def short : Timer := ⟨4, 2, 16, 1, 0, 0, 0, none, []⟩

/-- An interval of 16 ticks with a consistency, a call that is two ticks late, and the interval
behind it. -/
theorem trickle_conforms_suppressed :
    config ⟨0, 0, 0, 0, 0, 0, 0, none, []⟩ 4 2 1 = some short ∧
    (run (short.set 100 12 0) [.call 101 .consistency, .expire 110 0 [], .expire 116 3 []]).Conforms ∧
    (run (short.set 100 12 0) [.call 101 .consistency, .expire 110 0 [], .expire 116 3 []]).log =
      [.begin 100 100 16, .consistency, .callback 110 false, .next 116 116 16] := by
  have hconfig : config ⟨0, 0, 0, 0, 0, 0, 0, none, []⟩ 4 2 1 = some short := rfl
  refine ⟨hconfig, trickle_conforms hconfig (by decide) rfl 100 12 0 _ ?_, by decide +kernel⟩
  refine ⟨trivial, ⟨by decide +kernel, trivial⟩, ?_, trivial⟩
  show 116 < 116 + min (2 * 16) 16
  decide

/-- An inconsistency from inside the protocol callback begins an interval in which the protocol is
never called. -/
theorem not_conforms_inconsistency :
    ¬∀ (tt₀ tt : Timer) (iMin : UInt32) (iMax k : UInt8) (now : Nat) (rand rand' : UInt32)
      (es : List Event), config tt₀ iMin iMax k = some tt → tt₀.log = [] →
        (run (tt.set now rand rand') es).Conforms := by
  intro h
  obtain ⟨-, o, hfollows, -⟩ := h ⟨0, 0, 0, 0, 0, 0, 0, none, []⟩ short 4 2 1 100 12 0
    [.expire 108 0 [.inconsistency 0], .expire 112 0 []] rfl rfl
  have hnone : ((run (short.set 100 12 0)
      [.expire 108 0 [.inconsistency 0], .expire 112 0 []]).log.foldlM (follow 4 16 1)
        none).isNone = true := by
    decide +kernel
  rw [Option.isNone_iff_eq_none] at hnone
  exact Option.some_ne_none o (hfollows.symm.trans hnone)

end Calipso.Trickle
