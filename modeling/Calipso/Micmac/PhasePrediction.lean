import Calipso.Micmac.ChannelAgreement

/-!
# The wake-up a sender aims at

`mcphase_wait` on any clock values, cycle and guard time. The instant it waits for is a whole
number of cycles after the learned phase, and at most one cycle away unless the guard time asks
for more. The count of cycles it reports leaves out the first one, which the entry has counted
already: `receiver_channel_index` is one more than the place of the channel.
-/

namespace Calipso.Micmac

/-- The second half of `mcphase_wait`, from the wait before the guard time is looked at. -/
def guardedWait (e : Mcphase) (cycleTime guardTime now : UInt32) (queueItem : Bool)
    (wait : UInt32) : Wait :=
  let wait' := if wait < guardTime then wait + cycleTime else wait
  let channeldiff := phaseChanneldiff e cycleTime now
  { status := if 1 < ctimeWait wait' guardTime ∧ queueItem then .deferred else .sendNow
    wait := wait'
    channel := e.channelseed + if wait < guardTime then channeldiff + 1 else channeldiff }

theorem mcphaseWait_some (e : Mcphase) (cycleTime guardTime now : UInt32) (queueItem : Bool) :
    mcphaseWait (some e) cycleTime guardTime now queueItem =
      guardedWait e cycleTime guardTime now queueItem (phaseWait e cycleTime now) := by
  simp only [mcphaseWait, guardedWait]

/-- `mcphase_wait` without the branch for powers of two. -/
def mcphaseWaitGenerally (e : Mcphase) (cycleTime guardTime now : UInt32) (queueItem : Bool) :
    Wait :=
  guardedWait e cycleTime guardTime now queueItem (cycleTime - (now - e.time) % cycleTime)

/-- The wait ends `k` cycles after the learned phase. That is not in the past, and it is at most
one cycle ahead, or less than one cycle more than the guard time. -/
structure Aims (e : Mcphase) (cycleTime guardTime now wait : UInt32) (k : ℕ) : Prop where
  wait_eq : wait = UInt32.ofNat (k * cycleTime.toNat - (now - e.time).toNat)
  notPast : (now - e.time).toNat ≤ k * cycleTime.toNat
  near : k * cycleTime.toNat ≤ (now - e.time).toNat + cycleTime.toNat ∨
    k * cycleTime.toNat < (now - e.time).toNat + cycleTime.toNat + guardTime.toNat

/-- The branch for powers of two is taken at an instant of a wake-up. -/
def AtInstant (e : Mcphase) (cycleTime now : UInt32) : Prop :=
  isPowerOfTwo cycleTime = true ∧ (now - e.time).toNat % cycleTime.toNat = 0

instance (e : Mcphase) (cycleTime now : UInt32) : Decidable (AtInstant e cycleTime now) :=
  inferInstanceAs (Decidable (_ ∧ _))

/-- The wait ends at a wake-up, the channel has advanced by `offset` cycles less than lie between
the learned phase and that wake-up, and the two branches agree; the advance and the branches only
where `inScope` says so. -/
def Predicts (offset : ℕ) (inScope : Prop) (e : Mcphase) (cycleTime guardTime now : UInt32)
    (queueItem : Bool) : Prop :=
  ∃ k, Aims e cycleTime guardTime now
      (mcphaseWait (some e) cycleTime guardTime now queueItem).wait k ∧
    (inScope →
      (mcphaseWait (some e) cycleTime guardTime now queueItem).channel =
          e.channelseed + UInt8.ofNat (k - offset) ∧
        mcphaseWait (some e) cycleTime guardTime now queueItem =
          mcphaseWaitGenerally e cycleTime guardTime now queueItem)

theorem phaseWait_of_atInstant {e : Mcphase} {cycleTime now : UInt32} (hpos : 0 < cycleTime.toNat)
    (hat : AtInstant e cycleTime now) : (phaseWait e cycleTime now).toNat = 0 :=
  (phaseWait_eq hpos e now).trans (if_pos hat)

theorem phaseWait_of_not_atInstant {e : Mcphase} {cycleTime now : UInt32}
    (hpos : 0 < cycleTime.toNat) (hat : ¬ AtInstant e cycleTime now) :
    (phaseWait e cycleTime now).toNat =
      cycleTime.toNat - (now - e.time).toNat % cycleTime.toNat :=
  (phaseWait_eq hpos e now).trans (if_neg hat)

theorem phaseWait_general {e : Mcphase} {cycleTime now : UInt32} (hpos : 0 < cycleTime.toNat)
    (hat : ¬ AtInstant e cycleTime now) :
    phaseWait e cycleTime now = cycleTime - (now - e.time) % cycleTime := by
  have hr := Nat.mod_lt (now - e.time).toNat hpos
  have hl := cycleTime.toNat_lt
  rw [← UInt32.toNat_inj, phaseWait_of_not_atInstant hpos hat,
    UInt32.toNat_sub cycleTime ((now - e.time) % cycleTime), UInt32.toNat_mod]
  omega

theorem phaseChanneldiff_eq (e : Mcphase) (cycleTime now : UInt32) :
    phaseChanneldiff e cycleTime now = UInt8.ofNat ((now - e.time).toNat / cycleTime.toNat) := by
  rw [← UInt8.toNat_inj, phaseChanneldiff, UInt32.toNat_toUInt8, UInt32.toNat_div,
    UInt8.toNat_ofNat']

/-- A wait of `w` ticks that ends after a whole number of cycles, with the cycle the guard time
adds. -/
theorem aims_of_wait {e : Mcphase} {cycleTime guardTime now wait : UInt32} {k : ℕ}
    (hk : (now - e.time).toNat + wait.toNat = k * cycleTime.toNat)
    (hle : wait.toNat ≤ cycleTime.toNat) :
    Aims e cycleTime guardTime now
      (if wait < guardTime then wait + cycleTime else wait)
      (if wait < guardTime then k + 1 else k) := by
  by_cases hlate : wait < guardTime
  · have hlt : wait.toNat < guardTime.toNat := UInt32.lt_iff_toNat_lt.1 hlate
    rw [if_pos hlate, if_pos hlate]
    have hsucc : (k + 1) * cycleTime.toNat =
        (now - e.time).toNat + (wait.toNat + cycleTime.toNat) := by
      rw [Nat.add_mul, Nat.one_mul, ← hk, Nat.add_assoc]
    refine ⟨?_, ?_, Or.inr ?_⟩
    · rw [hsucc, Nat.add_sub_cancel_left, ← UInt32.toNat_inj, UInt32.toNat_add,
        UInt32.toNat_ofNat']
    · omega
    · omega
  · rw [if_neg hlate, if_neg hlate]
    refine ⟨?_, ?_, Or.inl ?_⟩
    · rw [← hk, Nat.add_sub_cancel_left, UInt32.ofNat_toNat]
    · omega
    · omega

/-- The wait ends at a wake-up. But for the instant of a wake-up in the branch for powers of two,
the advance of the channel is one less than the cycles up to there, and the branches agree. -/
theorem mcphaseWait_predicts (e : Mcphase) (cycleTime guardTime now : UInt32) (queueItem : Bool)
    (hcycle : cycleTime ≠ 0) :
    Predicts 1 (¬ AtInstant e cycleTime now) e cycleTime guardTime now queueItem := by
  have hpos : 0 < cycleTime.toNat := by
    refine Nat.pos_of_ne_zero fun hzero => hcycle ?_
    rw [← UInt32.toNat_inj, hzero, UInt32.toNat_zero]
  have hdm := Nat.div_add_mod' (now - e.time).toNat cycleTime.toNat
  have hr := Nat.mod_lt (now - e.time).toNat hpos
  unfold Predicts
  rw [mcphaseWait_some]
  by_cases hat : AtInstant e cycleTime now
  · have hwait := phaseWait_of_atInstant hpos hat
    refine ⟨_, aims_of_wait (k := (now - e.time).toNat / cycleTime.toNat) ?_ ?_,
      fun h => absurd hat h⟩
    · have hzero := hat.2
      omega
    · omega
  · have hwait := phaseWait_of_not_atInstant hpos hat
    refine ⟨_, aims_of_wait (k := (now - e.time).toNat / cycleTime.toNat + 1) ?_ ?_,
      fun _ => ⟨?_, ?_⟩⟩
    · rw [Nat.add_mul, Nat.one_mul]
      omega
    · omega
    · unfold guardedWait
      rw [phaseChanneldiff_eq]
      split
      next => rw [Nat.add_sub_cancel, UInt8.ofNat_add]; rfl
      next => rw [Nat.add_sub_cancel]
    · rw [mcphaseWaitGenerally, phaseWait_general hpos hat]

/-- A neighbour that was heard at time zero. -/
def heardAtZero : Mcphase where
  time := 0
  noacks := 0
  channelseed := 0
  noacksTimerExpired := false

theorem mcphaseWait_predicts_thousandTicks :
    Predicts 1 (¬ AtInstant heardAtZero 1000 1) heardAtZero 1000 10 1 true :=
  mcphaseWait_predicts heardAtZero 1000 10 1 true (by decide)

/-- One tick after the phase the next wake-up is a whole cycle after it, and the advance that is
reported is zero. -/
theorem not_predicts_thousandTicks : ¬ Predicts 0 True heardAtZero 1000 10 1 true := by
  rintro ⟨k, haims, hscope⟩
  have hchannel := (hscope trivial).1
  have hnot := haims.notPast
  have hnear := haims.near
  have helapsed : ((1 : UInt32) - heardAtZero.time).toNat = 1 := by decide
  have hcycle : (1000 : UInt32).toNat = 1000 := by decide
  have hguard : (10 : UInt32).toNat = 10 := by decide
  rw [helapsed, hcycle] at hnot
  rw [helapsed, hcycle, hguard] at hnear
  obtain rfl : k = 1 := by omega
  exact absurd hchannel (by decide)

end Calipso.Micmac
