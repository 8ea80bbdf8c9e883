import Calipso.Micmac.Phase

/-!
# Agreement on the channel

The sender divides the ticks since the encounter by the cycle, the receiver adds one at every
wake-up. Two things set them apart: each counter turns over at 256 on its own, and where the
cycle is a power of two the wait of a sender that asks at the instant of a wake-up is zero and
not a whole cycle.
-/

namespace Calipso.Micmac

/-- Two counts that agree modulo `N` and lie less than a turn of the counter apart agree after
the counter is reduced, unless the counter turned over between them and `N` does not divide its
size. -/
theorem mod_counter_iff {size N a b : ℕ} (hle : b ≤ a) (hlt : a < b + size)
    (hmod : a % N = b % N) :
    b % size % N = a % size % N ↔ N ∣ size ∨ b / size = a / size := by
  have hs : 0 < size := by omega
  have ha := Nat.div_add_mod a size
  have hb := Nat.div_add_mod b size
  have hdiv : a / size = b / size ∨ a / size = b / size + 1 := by
    have h1 : b / size ≤ a / size := Nat.div_le_div_right hle
    have h2 : a / size ≤ (b + size) / size := Nat.div_le_div_right hlt.le
    rw [Nat.add_div_right _ hs] at h2
    omega
  rcases hdiv with heq | hsucc
  · -- the counter has not turned over between the two counts
    refine iff_of_true ?_ (Or.inr heq.symm)
    rw [heq] at ha
    have : (size * (b / size) + a % size) ≡ (size * (b / size) + b % size) [MOD N] := by
      rw [ha, hb]; exact hmod
    exact (Nat.ModEq.add_left_cancel' _ this).symm
  · rw [hsucc, Nat.mul_add, Nat.mul_one] at ha
    have hne : ¬ b / size = a / size := by omega
    have hsum : size + a % size ≡ b % size [MOD N] := by
      have : size * (b / size) + (size + a % size) ≡ size * (b / size) + b % size [MOD N] := by
        rw [← Nat.add_assoc, ha, hb]; exact hmod
      exact Nat.ModEq.add_left_cancel' _ this
    rw [or_iff_left hne]
    constructor
    · intro h
      have h' : size + a % size ≡ 0 + a % size [MOD N] := by
        rw [Nat.zero_add]; exact hsum.trans h
      exact (Nat.modEq_zero_iff_dvd).1 (Nat.ModEq.add_right_cancel' _ h')
    · intro h
      have h0 : size ≡ 0 [MOD N] := Nat.modEq_zero_iff_dvd.2 h
      have := (Nat.ModEq.add_right (a % size) h0).symm.trans hsum
      rw [Nat.zero_add] at this
      exact this.symm

/-- Counts that are one apart modulo `N`, the first in the row and the second anywhere. -/
theorem mod_counter_succ_iff {N x n : ℕ} (hN : 0 < N) (hN' : N ≤ 16) (hx : x < 256) :
    (x % N + 1 + n) % 256 % N = (x + n) % 256 % N ↔
      N = 1 ∨ N ∣ 255 ∧ x < N ∧ 256 ∣ x + n + 1 := by
  rcases Nat.lt_or_ge x N with hlt | hge
  · rw [Nat.mod_eq_of_lt hlt, Nat.add_right_comm]
    by_cases hwrap : 256 ∣ x + n + 1
    · -- the sender's counter is at zero and the receiver's at its largest value
      have hzero : (x + n + 1) % 256 = 0 := Nat.mod_eq_zero_of_dvd hwrap
      have hmax : (x + n) % 256 = 255 := by omega
      rw [hzero, hmax, Nat.zero_mod, eq_comm, ← Nat.dvd_iff_mod_eq_zero]
      constructor
      · exact fun h => Or.inr ⟨h, hlt, hwrap⟩
      · rintro (rfl | h)
        · exact one_dvd 255
        · exact h.1
    · have hsucc : (x + n + 1) % 256 = (x + n) % 256 + 1 := by omega
      rw [hsucc, or_iff_left (fun h => hwrap h.2.2)]
      constructor
      · intro h
        have h1 : (x + n) % 256 + 1 ≡ (x + n) % 256 + 0 [MOD N] := h
        exact Nat.dvd_one.1 (Nat.modEq_zero_iff_dvd.1 (Nat.ModEq.add_left_cancel' _ h1))
      · rintro rfl
        simp only [Nat.mod_one]
  · rw [or_iff_left (fun h => absurd h.2.1 (by omega))]
    constructor
    · intro h
      have hrow : x % N + N ≤ x := by
        have := Nat.div_add_mod x N
        have : N * 1 ≤ N * (x / N) := Nat.mul_le_mul_left N (Nat.div_pos hge hN)
        omega
      have hmod : x % N ≡ x [MOD N] := Nat.mod_modEq x N
      have hcount : (x % N + 1 + n) % 256 ≡ (x + n) % 256 [MOD N] := h
      have hahead : ∀ t, (x % N + 1 + n) % 256 + x = (x + n) % 256 + t + x % N → N ∣ t := by
        intro t hadd
        have h1 : (x + n) % 256 + (0 + x) ≡ (x + n) % 256 + (t + x) [MOD N] := by
          calc (x + n) % 256 + (0 + x) = (x + n) % 256 + x := by rw [Nat.zero_add]
            _ ≡ (x % N + 1 + n) % 256 + x [MOD N] := hcount.symm.add_right x
            _ = (x + n) % 256 + t + x % N := hadd
            _ ≡ (x + n) % 256 + t + x [MOD N] := hmod.add_left _
            _ = (x + n) % 256 + (t + x) := Nat.add_assoc _ _ _
        have h2 : 0 ≡ t [MOD N] :=
          Nat.ModEq.add_right_cancel' _ (Nat.ModEq.add_left_cancel' _ h1)
        exact Nat.modEq_zero_iff_dvd.1 h2.symm
      have hdiv : (x + n) / 256 = (x % N + 1 + n) / 256 ∨
          (x + n) / 256 = (x % N + 1 + n) / 256 + 1 := by omega
      rcases hdiv with hdiv | hdiv
      · exact Nat.dvd_one.1 (hahead 1 (by omega))
      · -- 257 is prime
        have hprime : ∀ m ≤ 16, m ∣ 257 → m = 1 := by decide
        exact hprime N hN' (hahead 257 (by omega))
    · rintro rfl
      simp only [Nat.mod_one]

/-- A count of cycles that a whole number of turns of the clock makes. -/
theorem counter_dvd_of_turns {k cycle w : ℕ} (h : w * 2 ^ 32 = k * cycle)
    (hpos : 0 < cycle) (hlt : cycle < 2 ^ 24) : 256 ∣ k := by
  rcases Nat.eq_zero_or_pos k with rfl | hk
  · exact dvd_zero 256
  obtain ⟨i, k', hk', rfl⟩ := Nat.exists_eq_two_pow_mul_odd hk.ne'
  obtain ⟨j, c', hc', rfl⟩ := Nat.exists_eq_two_pow_mul_odd hpos.ne'
  have hj : j < 24 := by
    by_contra hge
    have : 2 ^ 24 ≤ 2 ^ j := Nat.pow_le_pow_right (by omega) (by omega)
    have : 2 ^ j ≤ 2 ^ j * c' := Nat.le_mul_of_pos_right _ hc'.pos
    omega
  have hdvd : 2 ^ 32 ∣ 2 ^ (i + j) * (k' * c') := ⟨w, by rw [Nat.mul_comm _ w, h]; ring⟩
  have hodd : Nat.Coprime (2 ^ 32) (k' * c') :=
    Nat.Coprime.pow_left 32 (Nat.coprime_two_left.2 (hk'.mul hc'))
  have hij : 32 ≤ i + j :=
    (Nat.pow_dvd_pow_iff_le_right (by omega)).1 (hodd.dvd_of_dvd_mul_right hdvd)
  exact Dvd.dvd.mul_right (pow_dvd_pow 2 (by omega : 8 ≤ i)) k'

/-- Two neighbours after the sender heard the receiver at a wake-up: the receiver's state at
that wake-up, and the sender's entry with the time of it on the sender's clock. -/
structure Encounter (h : HopSequence) (addressByte : ℕ) where
  receiver : Powercycle
  entry : Mcphase
  channelseed_eq : entry.channelseed =
    receiverChannelIndex h addressByte (receiver.recChannel h addressByte)

/-- The entry that `mcphase_update` makes or renews after an acknowledged strobe. -/
def Encounter.acknowledged (h : HopSequence) (addressByte : ℕ) (receiver : Powercycle)
    (old : Mcphase) (time : UInt32) : Encounter h addressByte where
  receiver := receiver
  entry := { old with
    time := time
    channelseed := receiverChannelIndex h addressByte (receiver.recChannel h addressByte)
    noacks := 0 }
  channelseed_eq := rfl

theorem isPowerOfTwo_iff {cycleTime : UInt32} (h : cycleTime.toNat ≠ 0) :
    isPowerOfTwo cycleTime = true ↔ ∃ k, cycleTime.toNat = 2 ^ k := by
  have hone : (cycleTime - 1).toNat = cycleTime.toNat - 1 := by
    have := cycleTime.toNat_lt
    rw [UInt32.toNat_sub]
    simp only [UInt32.toNat_one]
    omega
  rw [isPowerOfTwo, decide_eq_true_iff, ← UInt32.toNat_inj, UInt32.toNat_and, hone,
    UInt32.toNat_zero, Nat.and_sub_one_eq_zero_iff_isPowerOfTwo h, Nat.isPowerOfTwo]

/-- The ticks since the time of the entry, as the sender's clock gives them. -/
theorem elapsed_toNat (time : UInt32) (elapsed : ℕ) :
    (time + UInt32.ofNat elapsed - time).toNat = elapsed % 2 ^ 32 := by
  have : time + UInt32.ofNat elapsed - time = UInt32.ofNat elapsed := by
    rw [UInt32.add_comm, UInt32.add_sub_cancel]
  rw [this, UInt32.toNat_ofNat']

/-- What is left of the last cycle before a whole number of cycles. -/
theorem cycles_sub_mod {c m d : ℕ} (hc : 0 < c) (hd : d < c * m) :
    (c * m - d) % c = if d % c = 0 then 0 else c - d % c := by
  have hr := Nat.mod_lt d hc
  have hdm := Nat.div_add_mod d c
  have hq : d / c < m := Nat.div_lt_of_lt_mul hd
  obtain ⟨t, ht⟩ : ∃ t, m = d / c + 1 + t := ⟨m - (d / c + 1), by omega⟩
  have hsplit : c * m - d = c * t + (c - d % c) := by
    rw [ht, Nat.mul_add, Nat.mul_add, Nat.mul_one]
    omega
  rw [hsplit, Nat.mul_add_mod]
  split
  case isTrue h => rw [h, Nat.sub_zero, Nat.mod_self]
  case isFalse h => exact Nat.mod_eq_of_lt (by omega)

/-- The instants of the sender at which its cycle test and its mask see no wait at all. -/
def AtWakeup (cycle : CycleTime) (elapsed : ℕ) : Prop :=
  isPowerOfTwo cycle.ticks = true ∧ elapsed % cycle.ticks.toNat = 0

instance (cycle : CycleTime) (elapsed : ℕ) : Decidable (AtWakeup cycle elapsed) :=
  inferInstanceAs (Decidable (_ ∧ _))

/-- The wait before the guard time is looked at: the rest of the running cycle, but where the
mask sees that no part of it is over, nothing. -/
theorem phaseWait_eq {cycleTime : UInt32} (hpos : 0 < cycleTime.toNat) (e : Mcphase)
    (now : UInt32) :
    (phaseWait e cycleTime now).toNat =
      if isPowerOfTwo cycleTime = true ∧ (now - e.time).toNat % cycleTime.toNat = 0 then 0
      else cycleTime.toNat - (now - e.time).toNat % cycleTime.toNat := by
  have hl := cycleTime.toNat_lt
  have hr := Nat.mod_lt (now - e.time).toNat hpos
  have hd := (now - e.time).toNat_lt
  have hback : (e.time - now).toNat = (2 ^ 32 - (now - e.time).toNat) % 2 ^ 32 := by
    have := e.time.toNat_lt
    have := now.toNat_lt
    rw [UInt32.toNat_sub, UInt32.toNat_sub]
    omega
  unfold phaseWait
  by_cases hp : isPowerOfTwo cycleTime
  · obtain ⟨k, hk⟩ := (isPowerOfTwo_iff hpos.ne').1 hp
    have hone : (cycleTime - 1).toNat = 2 ^ k - 1 := by
      rw [UInt32.toNat_sub, ← hk]
      simp only [UInt32.toNat_one]
      omega
    obtain ⟨m, hm⟩ : cycleTime.toNat ∣ 2 ^ 32 := by
      rw [hk] at hl ⊢
      exact pow_dvd_pow 2 ((Nat.pow_lt_pow_iff_right (by omega)).1 hl).le
    rw [if_pos hp, UInt32.toNat_and, hone, Nat.and_two_pow_sub_one_eq_mod, hback, ← hk,
      Nat.mod_mod_of_dvd _ ⟨m, hm⟩]
    simp only [hp, true_and]
    rw [hm] at hd ⊢
    exact cycles_sub_mod hpos hd
  · rw [if_neg hp, if_neg (fun h => hp h.1), UInt32.toNat_sub, UInt32.toNat_mod]
    omega

theorem phaseWait_toNat (cycle : CycleTime) (e : Mcphase) (elapsed : ℕ) :
    (phaseWait e cycle.ticks (e.time + UInt32.ofNat elapsed)).toNat =
      if AtWakeup cycle (elapsed % 2 ^ 32) then 0
      else cycle.ticks.toNat - elapsed % 2 ^ 32 % cycle.ticks.toNat := by
  have hg := cycle.guard_le
  rw [guardTime_toNat] at hg
  rw [phaseWait_eq (by omega), elapsed_toNat]
  rfl

theorem phaseChanneldiff_toNat (cycle : CycleTime) (e : Mcphase) (elapsed : ℕ) :
    (phaseChanneldiff e cycle.ticks (e.time + UInt32.ofNat elapsed)).toNat =
      elapsed % 2 ^ 32 / cycle.ticks.toNat % 256 := by
  rw [phaseChanneldiff, UInt32.toNat_toUInt8, UInt32.toNat_div, elapsed_toNat]

/-- The number of the wake-up that comes next after the guard time, counted from a wake-up. -/
def nextWakeup (cycle : CycleTime) (elapsed : ℕ) : ℕ :=
  (elapsed + guardTime.toNat + cycle.ticks.toNat - 1) / cycle.ticks.toNat

/-- The next wake-up, by the cycles that are over and the part of the running one. -/
theorem nextWakeup_eq (cycle : CycleTime) (elapsed k : ℕ)
    (hle : k * cycle.ticks.toNat ≤
      elapsed % cycle.ticks.toNat + guardTime.toNat + cycle.ticks.toNat - 1)
    (hlt : elapsed % cycle.ticks.toNat + guardTime.toNat + cycle.ticks.toNat - 1 <
      (k + 1) * cycle.ticks.toNat) :
    nextWakeup cycle elapsed = elapsed / cycle.ticks.toNat + k := by
  have hg := cycle.guard_le
  rw [guardTime_toNat] at hg hle hlt
  have hdm := Nat.div_add_mod elapsed cycle.ticks.toNat
  have hsplit : elapsed + 520 + cycle.ticks.toNat - 1 =
      cycle.ticks.toNat * (elapsed / cycle.ticks.toNat) +
        (elapsed % cycle.ticks.toNat + 520 + cycle.ticks.toNat - 1) := by omega
  rw [nextWakeup, guardTime_toNat, hsplit, Nat.mul_add_div (by omega),
    Nat.div_eq_of_lt_le hle hlt]

/-- `mcphase_wait` on a clock that has not turned over: it waits for the next wake-up, and its
count of cycles is one short of it, except at a wake-up itself. -/
theorem mcphaseWait_spec (cycle : CycleTime) (e : Mcphase) (elapsed : ℕ) (queueItem : Bool) :
    let d := elapsed % 2 ^ 32
    let w := mcphaseWait (some e) cycle.ticks guardTime (e.time + UInt32.ofNat elapsed) queueItem
    d + w.wait.toNat = nextWakeup cycle d * cycle.ticks.toNat ∧
      w.channel.toNat = (e.channelseed.toNat +
        if AtWakeup cycle d then nextWakeup cycle d else nextWakeup cycle d - 1) % 256 := by
  intro d w
  have hg := cycle.guard_le
  have hl := cycle.lt
  have hwait : _ = if AtWakeup cycle d then 0 else cycle.ticks.toNat - d % cycle.ticks.toNat :=
    phaseWait_toNat cycle e elapsed
  have hdiff : _ = d / cycle.ticks.toNat % 256 := phaseChanneldiff_toNat cycle e elapsed
  clear_value d
  have hdm := Nat.div_add_mod' d cycle.ticks.toNat
  have hw : w.wait = if phaseWait e cycle.ticks (e.time + UInt32.ofNat elapsed) < guardTime
      then phaseWait e cycle.ticks (e.time + UInt32.ofNat elapsed) + cycle.ticks
      else phaseWait e cycle.ticks (e.time + UInt32.ofNat elapsed) := rfl
  have hc : w.channel = e.channelseed +
      if phaseWait e cycle.ticks (e.time + UInt32.ofNat elapsed) < guardTime
      then phaseChanneldiff e cycle.ticks (e.time + UInt32.ofNat elapsed) + 1
      else phaseChanneldiff e cycle.ticks (e.time + UInt32.ofNat elapsed) := rfl
  rw [guardTime_toNat] at hg
  have hr := Nat.mod_lt d (show 0 < cycle.ticks.toNat by omega)
  rw [hw, hc]
  simp only [UInt32.lt_iff_toNat_lt, guardTime_toNat]
  generalize phaseWait e cycle.ticks (e.time + UInt32.ofNat elapsed) = wait at hwait ⊢
  generalize phaseChanneldiff e cycle.ticks (e.time + UInt32.ofNat elapsed) = diff at hdiff ⊢
  by_cases hat : AtWakeup cycle d
  · -- the mask gives no wait, so the wake-up after the present one is taken
    rw [if_pos hat] at hwait
    have hn : nextWakeup cycle d = d / cycle.ticks.toNat + 1 :=
      nextWakeup_eq cycle d 1 (by rw [guardTime_toNat, hat.2]; omega)
        (by rw [guardTime_toNat, hat.2]; omega)
    rw [if_pos (by omega), if_pos (by omega), if_pos hat, hn]
    have hzero := hat.2
    rw [Nat.add_mul]
    simp only [UInt32.toNat_add, UInt8.toNat_add, UInt8.toNat_one]
    omega
  · rw [if_neg hat] at hwait
    rw [if_neg hat]
    by_cases hlate : wait.toNat < 520
    · have hn : nextWakeup cycle d = d / cycle.ticks.toNat + 2 :=
        nextWakeup_eq cycle d 2 (by rw [guardTime_toNat]; omega) (by rw [guardTime_toNat]; omega)
      rw [if_pos hlate, if_pos hlate, hn, Nat.add_mul]
      simp only [UInt32.toNat_add, UInt8.toNat_add, UInt8.toNat_one]
      generalize d / cycle.ticks.toNat = q at hdm hdiff ⊢
      omega
    · have hn : nextWakeup cycle d = d / cycle.ticks.toNat + 1 :=
        nextWakeup_eq cycle d 1 (by rw [guardTime_toNat]; omega) (by rw [guardTime_toNat]; omega)
      rw [if_neg hlate, if_neg hlate, hn, Nat.add_mul]
      simp only [UInt8.toNat_add]
      generalize d / cycle.ticks.toNat = q at hdm hdiff ⊢
      omega

theorem round_iterate (cycleTime : UInt32) (p : Powercycle) (n : ℕ) :
    ((Powercycle.round cycleTime)^[n] p).recChannelIndex.toNat =
      (p.recChannelIndex.toNat + n) % 256 := by
  induction n with
  | zero =>
    have := p.recChannelIndex.toNat_lt
    simp only [Function.iterate_zero, id_eq]
    omega
  | succ n ih =>
    rw [Function.iterate_succ_apply', Powercycle.round, UInt8.toNat_add, ih, UInt8.toNat_one]
    omega

/-- Each channel stands once in the row, so the scan finds the place the receiver is at. -/
theorem receiverChannelIndex_channel (h : HopSequence) (addressByte x : ℕ) :
    (receiverChannelIndex h addressByte (h.channel addressByte x)).toNat = x % h.colNum + 1 := by
  have hx : x % h.colNum < h.colNum := Nat.mod_lt x h.colNum_pos
  have hle := h.colNum_le
  have hfind : (List.range h.colNum).find?
      (fun i => h.channel addressByte i = h.channel addressByte x) = some (x % h.colNum) := by
    rw [List.find?_range_eq_some]
    refine ⟨by simp, List.mem_range.2 hx, fun j hj => ?_⟩
    have hne : j % h.colNum ≠ x % h.colNum := by
      rw [Nat.mod_eq_of_lt (hj.trans hx)]
      exact hj.ne
    simpa only [Bool.not_eq_true', decide_eq_false_iff_not, h.channel_inj] using hne
  simp only [receiverChannelIndex, hfind, UInt8.toNat_ofNat']
  omega

namespace Encounter

variable {h : HopSequence} {addressByte : ℕ} (enc : Encounter h addressByte) (cycle : CycleTime)

/-- What `mcphase_wait` finds that many ticks after the encounter. -/
def waitAt (elapsed : ℕ) (queueItem : Bool) : Wait :=
  mcphaseWait (some enc.entry) cycle.ticks guardTime (enc.entry.time + UInt32.ofNat elapsed)
    queueItem

/-- The receiver at that wake-up after the encounter. -/
def wakeup (n : ℕ) : Powercycle := (Powercycle.round cycle.ticks)^[n] enc.receiver

/-- The sender waits for the receiver's next wake-up, and its channel for the strobes is the one
on which the receiver listens at this wake-up. -/
def Agrees (elapsed : ℕ) (queueItem : Bool) : Prop :=
  elapsed + (enc.waitAt cycle elapsed queueItem).wait.toNat =
      nextWakeup cycle elapsed * cycle.ticks.toNat ∧
    sendChannel h addressByte (enc.waitAt cycle elapsed queueItem) =
      (enc.wakeup cycle (nextWakeup cycle elapsed)).recChannel h addressByte

/-- The two counters of eight bits give the same place in a row of `numChannels` channels, when
the receiver's was at `index` at the encounter. -/
def InStep (numChannels index elapsed : ℕ) : Prop :=
  if AtWakeup cycle elapsed then
    -- the sender is one ahead, which only a turn of its own counter makes good
    numChannels = 1 ∨ numChannels ∣ 255 ∧ index < numChannels ∧
      256 ∣ index + nextWakeup cycle elapsed + 1
  else
    numChannels ∣ 256 ∨ (index % numChannels + nextWakeup cycle elapsed) / 256 =
      (index + nextWakeup cycle elapsed) / 256

instance (numChannels index elapsed : ℕ) : Decidable (InStep cycle numChannels index elapsed) := by
  unfold InStep
  infer_instance

/-- The next wake-up after turns of the sender's clock that make `k` cycles. -/
theorem nextWakeup_turns {elapsed k : ℕ} (hk : elapsed / 2 ^ 32 * 2 ^ 32 = k * cycle.ticks.toNat) :
    nextWakeup cycle elapsed = k + nextWakeup cycle (elapsed % 2 ^ 32) := by
  have hg := cycle.guard_le
  rw [guardTime_toNat] at hg
  have hsplit : elapsed + 520 + cycle.ticks.toNat - 1 =
      cycle.ticks.toNat * k + (elapsed % 2 ^ 32 + 520 + cycle.ticks.toNat - 1) := by
    rw [Nat.mul_comm, ← hk]
    omega
  rw [nextWakeup, nextWakeup, guardTime_toNat, hsplit, Nat.mul_add_div (by omega)]

theorem atWakeup_turns {elapsed k : ℕ} (hk : elapsed / 2 ^ 32 * 2 ^ 32 = k * cycle.ticks.toNat) :
    AtWakeup cycle elapsed ↔ AtWakeup cycle (elapsed % 2 ^ 32) := by
  have hmod : elapsed % cycle.ticks.toNat = elapsed % 2 ^ 32 % cycle.ticks.toNat := by
    conv_lhs => rw [← Nat.div_add_mod' elapsed (2 ^ 32), hk, Nat.mul_add_mod']
  rw [AtWakeup, AtWakeup, hmod]

/-- The wait is for a wake-up exactly when the turns of the clock make whole cycles. -/
theorem wait_iff (elapsed : ℕ) (queueItem : Bool) :
    elapsed + (enc.waitAt cycle elapsed queueItem).wait.toNat =
        nextWakeup cycle elapsed * cycle.ticks.toNat ↔
      cycle.ticks.toNat ∣ elapsed / 2 ^ 32 * 2 ^ 32 := by
  have hw := (mcphaseWait_spec cycle enc.entry elapsed queueItem).1
  have hsum : elapsed + (enc.waitAt cycle elapsed queueItem).wait.toNat =
      elapsed / 2 ^ 32 * 2 ^ 32 + nextWakeup cycle (elapsed % 2 ^ 32) * cycle.ticks.toNat := by
    rw [← hw, waitAt]
    omega
  rw [hsum]
  constructor
  · intro h
    exact (Nat.dvd_add_left (Dvd.intro_left _ rfl)).1 (Dvd.intro_left _ h.symm)
  · rintro ⟨k, hk⟩
    rw [Nat.mul_comm cycle.ticks.toNat] at hk
    rw [nextWakeup_turns cycle hk, hk, Nat.add_mul]

theorem sendChannel_iff (elapsed : ℕ) (queueItem : Bool)
    (hturns : cycle.ticks.toNat ∣ elapsed / 2 ^ 32 * 2 ^ 32) :
    sendChannel h addressByte (enc.waitAt cycle elapsed queueItem) =
        (enc.wakeup cycle (nextWakeup cycle elapsed)).recChannel h addressByte ↔
      InStep cycle h.colNum enc.receiver.recChannelIndex.toNat elapsed := by
  have hg := cycle.guard_le
  rw [guardTime_toNat] at hg
  obtain ⟨k, hk⟩ := hturns
  rw [Nat.mul_comm cycle.ticks.toNat] at hk
  have hdvd : 256 ∣ k := counter_dvd_of_turns hk (by omega) cycle.lt
  have hx := enc.receiver.recChannelIndex.toNat_lt
  have hseed : enc.entry.channelseed.toNat =
      enc.receiver.recChannelIndex.toNat % h.colNum + 1 := by
    rw [enc.channelseed_eq, Powercycle.recChannel, receiverChannelIndex_channel]
  have hn := nextWakeup_turns cycle hk
  have hle := Nat.mod_le enc.receiver.recChannelIndex.toNat h.colNum
  have hchannel := (mcphaseWait_spec cycle enc.entry elapsed queueItem).2
  rw [sendChannel, Powercycle.recChannel, h.channel_inj, wakeup, round_iterate, waitAt, hchannel,
    hseed, InStep]
  have hat := atWakeup_turns cycle hk
  have hpos : 0 < nextWakeup cycle (elapsed % 2 ^ 32) := by
    rw [nextWakeup, guardTime_toNat]
    exact Nat.div_pos (by omega) (by omega)
  obtain ⟨t, rfl⟩ := hdvd
  by_cases h' : AtWakeup cycle elapsed
  · rw [if_pos h', if_pos (hat.1 h')]
    have hcount : (enc.receiver.recChannelIndex.toNat % h.colNum + 1 +
        nextWakeup cycle (elapsed % 2 ^ 32)) % 256 =
        (enc.receiver.recChannelIndex.toNat % h.colNum + 1 + nextWakeup cycle elapsed) % 256 := by
      omega
    rw [hcount, mod_counter_succ_iff h.colNum_pos h.colNum_le hx]
  · rw [if_neg h', if_neg (fun hd => h' (hat.2 hd))]
    have hcount : (enc.receiver.recChannelIndex.toNat % h.colNum + 1 +
        (nextWakeup cycle (elapsed % 2 ^ 32) - 1)) % 256 =
        (enc.receiver.recChannelIndex.toNat % h.colNum + nextWakeup cycle elapsed) % 256 := by
      omega
    rw [hcount, mod_counter_iff (by omega) (by omega)]
    exact (Nat.mod_add_mod _ _ _).symm

/-- The sender aims at the next wake-up of the receiver, with its channel, exactly when the turns
of its clock make whole cycles and the two counters are in step. -/
theorem agrees_iff (elapsed : ℕ) (queueItem : Bool) :
    enc.Agrees cycle elapsed queueItem ↔
      cycle.ticks.toNat ∣ elapsed / 2 ^ 32 * 2 ^ 32 ∧
        InStep cycle h.colNum enc.receiver.recChannelIndex.toNat elapsed := by
  rw [Agrees, enc.wait_iff cycle]
  exact and_congr_right (enc.sendChannel_iff cycle elapsed queueItem)

instance (elapsed : ℕ) (queueItem : Bool) : Decidable (enc.Agrees cycle elapsed queueItem) :=
  inferInstanceAs (Decidable (_ ∧ _))

end Encounter

/-- Eight wake-ups in a second. -/
def cycleTimeEighth : CycleTime where
  ticks := 4096
  guard_le := by decide
  lt := by decide

/-- A receiver on the table of ten channels, heard at wake-up 250. -/
def encounterTen : Encounter (hopSequence 10 (by omega) (by omega)) 3 :=
  Encounter.acknowledged _ 3 { cycleStart := 0, recChannelIndex := 250 }
    { time := 0, noacks := 0, channelseed := 0, noacksTimerExpired := false } 1000

/-- Six wake-ups later the receiver's counter has turned over and the sender's has not; and at
the instant of a wake-up the sender is one channel ahead. -/
theorem not_agrees_encounterTen :
    ¬ encounterTen.Agrees cycleTimeEighth 20580 true ∧
      ¬ encounterTen.Agrees cycleTimeEighth 4096 true := by
  decide +kernel

end Calipso.Micmac
