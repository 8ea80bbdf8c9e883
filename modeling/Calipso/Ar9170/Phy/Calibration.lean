import Calipso.Ar9170.Phy.SetChannel
import Mathlib.Algebra.Order.Ring.Int
import Mathlib.Data.List.Chain
import Mathlib.Tactic.Ring

/-!
# Interpolating the calibration

The EEPROM has tables of powers by frequency, and the driver interpolates between two entries.
`calibration_conforms_iff` says for which tables and channels the entries are the right ones and
the power lies between theirs.
-/

namespace Calipso.Ar9170.Phy

/-! ### Interpolation -/

/-- A value of `S32`; a signed overflow has no result. -/
def s32 (v : Int) : Option Int := if -2 ^ 31 ≤ v ∧ v < 2 ^ 31 then some v else none

/-- `ar9170_interpolate_s32`. Only the product can overflow for the values that the callers
have. -/
def interpolateS32 (x x1 y1 x2 y2 : Int) : Option Int :=
  if y2 = y1 then some y1
  else if x = x1 then some y1
  else if x = x2 then some y2
  else if x2 = x1 then some y1
  else (s32 ((y2 - y1) * (x - x1))).map fun p => y1 + p.tdiv (x2 - x1)

/-- A byte that is shifted by `SHIFT`. -/
def shifted (v : UInt8) : Int := v.toNat * 256

/-- `ar9170_interpolate_u8` -/
def interpolateU8 (x x1 y1 x2 y2 : UInt8) : Option UInt8 :=
  (interpolateS32 (shifted x) (shifted x1) (shifted y1) (shifted x2) (shifted y2)).map fun y =>
    UInt8.ofInt (y / 256 + y / 128 % 2)

/-- The loop of `ar9170_find_freq_idx` from `idx + 1` on. -/
def findFreqLoop (freqs : List UInt8) (f : UInt8) : Nat → Nat
  | 0 => 0
  | idx + 1 => if freqs.getD idx 0 ≤ f then idx else findFreqLoop freqs f idx

/-- `ar9170_find_freq_idx` -/
def findFreqIdx (nfreqs : Nat) (freqs : List UInt8) (f : UInt8) : Nat :=
  findFreqLoop freqs f (nfreqs - 1)

/-- `AR5416_PD_GAIN_ICEPTS` -/
def pdGainIcepts : Nat := 5

/-- The index in `ar9170_interpolate_val`: the loop from `i` on. -/
def interpolateValIdx (x : UInt8) (xArray : Nat → UInt8) : Nat → Nat → Nat
  | 0, i => i
  | n + 1, i => if x ≤ xArray (i + 1) then i else interpolateValIdx x xArray n (i + 1)

/-! ### Tables -/

/-- An entry of a table: a frequency and its values. -/
structure Row (κ : Type) where
  freq : UInt8
  value : κ → UInt8

/-- A table of the EEPROM: the calibrated entries, at least one and with increasing frequencies,
and the other ones, which are `0xff`. -/
structure Table (κ : Type) where
  rows : List (Row κ)
  rest : List (Row κ)
  ne : rows ≠ []
  increasing : rows.Pairwise fun a b => a.freq < b.freq
  calibrated : ∀ r ∈ rows, r.freq ≠ 0xff
  terminated : ∀ r ∈ rest, r.freq = 0xff

variable {κ : Type}

/-- All entries. -/
def Table.all (t : Table κ) : List (Row κ) := t.rows ++ t.rest

/-- The frequencies up to the first `0xff`, as `ar9170_set_power_cal` copies them. -/
def Table.pwrFreqs (t : Table κ) : List UInt8 :=
  (t.all.map Row.freq).takeWhile fun f => f ≠ 0xff

/-- The index in `ar9170_set_power_cal`. -/
def Table.targetIdx (t : Table κ) (f : UInt8) : Nat := findFreqIdx t.pwrFreqs.length t.pwrFreqs f

/-- The loop of `ar9170_set_freq_cal_data` down from `n` for the last pier. -/
def lastPier (freqs : List UInt8) : Nat → Option Nat
  | 0 => none
  | n + 1 => if freqs.getD n 0xff ≠ 0xff then some n else lastPier freqs n

/-- The index in `ar9170_set_freq_cal_data`. -/
def Table.pierIdx (t : Table κ) (f : UInt8) : Option Nat :=
  (lastPier (t.all.map Row.freq) t.all.length).map fun i =>
    findFreqIdx i (t.all.map Row.freq) f

/-- The interpolation between the entries `idx` and `idx + 1`. -/
def Table.interpolate (t : Table κ) (idx : Nat) (f : UInt8) (n : κ) : Option UInt8 :=
  match t.all[idx]?, t.all[idx + 1]? with
  | some a, some b => interpolateU8 f a.freq (a.value n) b.freq (b.value n)
  | _, _ => none

/-! ### The EEPROM -/

/-- The tables of target powers, in the order of `ar9170_set_power_cal`. -/
inductive Target
  | leg5G
  | cck2G
  | ofdm2G
  | ht20in5G
  | ht40in5G
  | ht20in2G
  | ht40in2G

/-- The powers of an entry. -/
def Target.width : Target → Nat
  | .leg5G => 4
  | .cck2G => 4
  | .ofdm2G => 4
  | .ht20in5G => 8
  | .ht40in5G => 8
  | .ht20in2G => 8
  | .ht40in2G => 8

/-- The values at a calibration pier: those of `vpd_pdg` or `pwr_pdg` for a chain, a gain and an
intercept. -/
structure Pier where
  vpd : Bool
  chain : Fin 2
  gain : Fin 2
  icept : Fin 5

/-- The calibration of the EEPROM; a pier has its frequency and its data. -/
structure Eeprom where
  target : (i : Target) → Table (Fin i.width)
  pier2G : Table Pier
  pier5G : Table Pier

/-- The frequency as `ar9170_set_power_cal` has it. -/
def powerFreq (channel : Channel) : UInt8 :=
  if channel.centerFreq < 3000 then UInt8.ofInt (channel.centerFreq - 2300)
  else UInt8.ofInt ((channel.centerFreq - 4800 : Int) % 2 ^ 32 / 5)

/-- What `ar9170_set_freq_cal_data` takes for a band: the piers and the frequency. -/
def Eeprom.piers (e : Eeprom) (channel : Channel) : Option (Table Pier × UInt8) :=
  match channel.band with
  | .ghz2 => some (e.pier2G, UInt8.ofInt (channel.centerFreq - 2300))
  | .ghz5 => some (e.pier5G, UInt8.ofInt ((channel.centerFreq - 4800 : Int).tdiv 5))
  | .ghz60 => none

/-! ### What is asked -/

/-- A value between two others. -/
def Between (y1 y2 y : UInt8) : Prop :=
  min y1.toNat y2.toNat ≤ y.toNat ∧ y.toNat ≤ max y1.toNat y2.toNat

/-- The entries `idx` and `idx + 1` are calibrated and the frequency is in their segment, or theirs
is the nearest one at an end; and when it lies between theirs the values lie between theirs. -/
structure Table.Right (t : Table κ) (idx : Nat) (f : UInt8) : Prop where
  calibrated : idx + 1 < t.rows.length
  low : ∀ a, t.rows[idx]? = some a → idx = 0 ∨ a.freq ≤ f
  high : ∀ b, t.rows[idx + 1]? = some b → idx + 2 = t.rows.length ∨ f ≤ b.freq
  between : ∀ a b, t.rows[idx]? = some a → t.rows[idx + 1]? = some b → a.freq ≤ f → f ≤ b.freq →
    ∀ n, ∃ y, t.interpolate idx f n = some y ∧ Between (a.value n) (b.value n) y

/-- All interpolations for a channel are right. -/
structure TargetsConform (e : Eeprom) (channel : Channel) : Prop where
  targets : ∀ i, (e.target i).Right ((e.target i).targetIdx (powerFreq channel)) (powerFreq channel)
  piers : ∀ t f, e.piers channel = some (t, f) → ∃ idx, t.pierIdx f = some idx ∧ t.Right idx f
  icepts : ∀ x xArray, interpolateValIdx x xArray 3 0 + 1 < pdGainIcepts

/-- Strictly between two frequencies, the difference of the values times that of the frequencies
fits in 16 bits. -/
def Table.Fits (t : Table κ) (f : UInt8) : Prop :=
  ∀ idx a b, t.rows[idx]? = some a → t.rows[idx + 1]? = some b → a.freq < f → f < b.freq →
    ∀ n, -2 ^ 15 ≤ ((b.value n).toNat - (a.value n).toNat : Int) * (f.toNat - a.freq.toNat) ∧
      ((b.value n).toNat - (a.value n).toNat : Int) * (f.toNat - a.freq.toNat) < 2 ^ 15

/-- The tables and channels for which the interpolations are right: each table of powers has two
entries, the table of piers has two, or more and the frequency is not above the last but one, and
no product overflows. -/
structure TargetsHold (e : Eeprom) (channel : Channel) : Prop where
  targets : ∀ i, 2 ≤ (e.target i).rows.length ∧ (e.target i).Fits (powerFreq channel)
  piers : ∀ t f, e.piers channel = some (t, f) → 2 ≤ t.rows.length ∧ t.Fits f ∧
    (t.rows.length = 2 ∨ ∀ a, t.rows[t.rows.length - 2]? = some a → f ≤ a.freq)

/-! ### Between two entries -/

theorem toNat_ofInt {y : Int} (hnonneg : 0 ≤ y) (hlt : y < 256) :
    ((UInt8.ofInt y).toNat : Int) = y := by
  unfold UInt8.ofInt
  rw [UInt8.toNat_ofNat']
  omega

/-- A value at an end is not changed by the rounding. -/
theorem round_shifted (v : UInt8) : UInt8.ofInt (shifted v / 256 + shifted v / 128 % 2) = v := by
  have hv := v.toNat_lt
  have hround : shifted v / 256 + shifted v / 128 % 2 = v.toNat := by
    unfold shifted
    omega
  have heq := toNat_ofInt (y := v.toNat) (by omega) (by omega)
  rw [hround]
  exact UInt8.toNat_inj.mp (by omega)

/-- The quotient lies between the ends. -/
theorem tdiv_mem (dy : Int) {dx w : Int} (hpos : 0 < dx) (hlt : dx < w) :
    min 0 (dy * 256) ≤ (dy * 256 * (dx * 256)).tdiv (w * 256) ∧
      (dy * 256 * (dx * 256)).tdiv (w * 256) ≤ max 0 (dy * 256) := by
  have hw : 0 < w * 256 := by omega
  have hnonneg {e : Int} (he : 0 ≤ e) : 0 ≤ (e * 256 * (dx * 256)).tdiv (w * 256) ∧
      (e * 256 * (dx * 256)).tdiv (w * 256) ≤ e * 256 := by
    have hprod : 0 ≤ e * 256 * (dx * 256) := Int.mul_nonneg (by omega) (by omega)
    rw [Int.tdiv_eq_ediv_of_nonneg hprod]
    refine ⟨Int.ediv_nonneg hprod hw.le, Int.ediv_le_of_le_mul hw ?_⟩
    exact Int.mul_le_mul_of_nonneg_left (by omega) (by omega)
  rcases Int.le_total 0 dy with hdy | hdy
  · have := hnonneg hdy
    omega
  · have hneg := hnonneg (Int.neg_nonneg_of_nonpos hdy)
    rw [Int.neg_mul, Int.neg_mul, Int.neg_tdiv] at hneg
    omega

/-- The product fits in 32 bits when it does in 16 without the shifts. -/
theorem s32_eq_some_iff {dx dy : Int} :
    s32 (dy * 256 * (dx * 256)) = some (dy * 256 * (dx * 256)) ↔
      -2 ^ 15 ≤ dy * dx ∧ dy * dx < 2 ^ 15 := by
  have hprod : dy * 256 * (dx * 256) = dy * dx * 65536 := by ring
  unfold s32
  rw [hprod]
  generalize dy * dx = p
  split_ifs with h
  · exact iff_of_true rfl ⟨by omega, by omega⟩
  · refine iff_of_false nofun fun hp => h ⟨by omega, by omega⟩

/-- A value between two others, after the rounding. -/
theorem between_round {y : Int} {y1 y2 : UInt8} (hlow : min (shifted y1) (shifted y2) ≤ y)
    (hhigh : y ≤ max (shifted y1) (shifted y2)) :
    Between y1 y2 (UInt8.ofInt (y / 256 + y / 128 % 2)) := by
  have hy1 := y1.toNat_lt
  have hy2 := y2.toNat_lt
  unfold shifted at hlow hhigh
  have hround := toNat_ofInt (y := y / 256 + y / 128 % 2) (by omega) (by omega)
  unfold Between
  omega

theorem shifted_sub (a b : UInt8) : shifted a - shifted b = (a.toNat - b.toNat : Int) * 256 :=
  (Int.sub_mul _ _ _).symm

theorem shifted_inj {a b : UInt8} : shifted a = shifted b ↔ a = b := by
  unfold shifted
  rw [← UInt8.toNat_inj]
  omega

/-- The interpolation between two entries gives a value between theirs unless a product
overflows. -/
theorem interpolateU8_between_iff {x x1 y1 x2 y2 : UInt8} (hlt : x1 < x2) (hlow : x1 ≤ x)
    (hhigh : x ≤ x2) :
    (∃ y, interpolateU8 x x1 y1 x2 y2 = some y ∧ Between y1 y2 y) ↔
      (x1 < x → x < x2 → -2 ^ 15 ≤ (y2.toNat - y1.toNat : Int) * (x.toNat - x1.toNat) ∧
        (y2.toNat - y1.toNat : Int) * (x.toNat - x1.toNat) < 2 ^ 15) := by
  unfold interpolateU8 interpolateS32
  simp only [shifted_inj]
  split_ifs with hy hx1 hx2 hx
  · subst hy
    refine iff_of_true ⟨y2, ?_, Nat.min_le_left _ _, Nat.le_max_left _ _⟩ fun _ _ => ?_
    · rw [Option.map_some, round_shifted]
    · rw [Int.sub_self, Int.zero_mul]
      decide
  · subst hx1
    refine iff_of_true ⟨y1, ?_, Nat.min_le_left _ _, Nat.le_max_left _ _⟩
      fun h => absurd h (UInt8.lt_irrefl x)
    rw [Option.map_some, round_shifted]
  · subst hx2
    refine iff_of_true ⟨y2, ?_, Nat.min_le_right _ _, Nat.le_max_right _ _⟩
      fun _ h => absurd h (UInt8.lt_irrefl x)
    rw [Option.map_some, round_shifted]
  · exact absurd hx.symm (UInt8.ne_of_lt hlt)
  · have hx1' : x1 < x := UInt8.lt_of_le_of_ne hlow (Ne.symm hx1)
    have hx2' : x < x2 := UInt8.lt_of_le_of_ne hhigh hx2
    rw [imp_iff_right hx1', imp_iff_right hx2', ← s32_eq_some_iff]
    simp only [shifted_sub]
    constructor
    · rintro ⟨y, hy', -⟩
      obtain ⟨_, hp, -⟩ := Option.map_eq_some_iff.mp hy'
      obtain ⟨_, hp, -⟩ := Option.map_eq_some_iff.mp hp
      unfold s32 at hp ⊢
      split_ifs at hp ⊢
      rfl
    · intro hp
      rw [hp, Option.map_some, Option.map_some]
      have hpos : (0 : Int) < x.toNat - x1.toNat :=
        Int.sub_pos.mpr (Int.ofNat_lt.mpr (UInt8.lt_iff_toNat_lt.mp hx1'))
      have hless : (x.toNat - x1.toNat : Int) < x2.toNat - x1.toNat :=
        Int.sub_lt_sub_right (Int.ofNat_lt.mpr (UInt8.lt_iff_toNat_lt.mp hx2')) _
      have hend := shifted_sub y2 y1
      obtain ⟨hmin, hmax⟩ := tdiv_mem (y2.toNat - y1.toNat) hpos hless
      exact ⟨_, rfl, between_round (by omega) (by omega)⟩

/-! ### Finding the entries -/

/-- The last of the first `n` frequencies that is not above `f`, or the first one. -/
theorem findFreqLoop_spec (freqs : List UInt8) (f : UInt8) (n : Nat) :
    (findFreqLoop freqs f n = 0 ∨
        findFreqLoop freqs f n < n ∧ freqs.getD (findFreqLoop freqs f n) 0 ≤ f) ∧
      ∀ j, findFreqLoop freqs f n < j → j < n → f < freqs.getD j 0 := by
  induction n with
  | zero => exact ⟨.inl rfl, fun j _ hj => absurd hj (Nat.not_lt_zero j)⟩
  | succ n ih =>
      unfold findFreqLoop
      split_ifs with hle
      · exact ⟨.inr ⟨Nat.lt_succ_self n, hle⟩, fun j hlow hhigh => by omega⟩
      · obtain ⟨hfound, habove⟩ := ih
        refine ⟨hfound.imp_right fun h => ⟨Nat.lt_succ_of_lt h.1, h.2⟩, fun j hlow hhigh => ?_⟩
        rcases Nat.lt_succ_iff_lt_or_eq.mp hhigh with hlt | rfl
        · exact habove j hlow hlt
        · exact UInt8.not_le.mp hle

variable {t : Table κ}

theorem Table.length_pos (t : Table κ) : 0 < t.rows.length := List.length_pos_iff.mpr t.ne

theorem Table.all_getElem? {k : Nat} {a : Row κ} (h : t.rows[k]? = some a) :
    t.all[k]? = some a := by
  unfold Table.all
  rw [List.getElem?_append_left (List.getElem?_eq_some_iff.mp h).1]
  exact h

theorem Table.freq_getD {k : Nat} {a : Row κ} (h : t.rows[k]? = some a) (d : UInt8) :
    (t.all.map Row.freq).getD k d = a.freq := by
  rw [List.getD_eq_getElem?_getD, List.getElem?_map, Table.all_getElem? h]
  rfl

/-- The frequencies that are copied are those of the calibrated entries. -/
theorem Table.pwrFreqs_eq (t : Table κ) : t.pwrFreqs = t.rows.map Row.freq := by
  unfold Table.pwrFreqs Table.all
  rw [List.map_append, List.takeWhile_append_of_pos]
  · have hrest : (t.rest.map Row.freq).takeWhile (fun f => decide (f ≠ 0xff)) = [] := by
      cases hrest : t.rest with
      | nil => rfl
      | cons r rest =>
          have hr := t.terminated r (hrest ▸ List.mem_cons_self)
          exact List.takeWhile_cons_of_neg (by simp [hr])
    rw [hrest, List.append_nil]
  · intro f hf
    obtain ⟨r, hr, rfl⟩ := List.mem_map.mp hf
    exact decide_eq_true (t.calibrated r hr)

theorem Table.pwrFreqs_getD {k : Nat} {a : Row κ} (h : t.rows[k]? = some a) :
    t.pwrFreqs.getD k 0 = a.freq := by
  rw [Table.pwrFreqs_eq, List.getD_eq_getElem?_getD, List.getElem?_map, h]
  rfl

/-- The last pier is the last calibrated entry. -/
theorem Table.lastPier_eq (t : Table κ) :
    lastPier (t.all.map Row.freq) t.all.length = some (t.rows.length - 1) := by
  have hrest (k : Nat) (hk : k ≤ t.rest.length) :
      lastPier (t.all.map Row.freq) (t.rows.length + k) = some (t.rows.length - 1) := by
    induction k with
    | zero =>
        obtain ⟨m, hm⟩ := Nat.exists_eq_succ_of_ne_zero t.length_pos.ne'
        have hlast : t.rows[m]? = some (t.rows.get ⟨m, by omega⟩) :=
          List.getElem?_eq_getElem (by omega)
        rw [Nat.add_zero, hm, lastPier, t.freq_getD hlast]
        exact if_pos (t.calibrated _ (List.mem_of_getElem? hlast))
    | succ k ih =>
        have hterm : (t.all.map Row.freq).getD (t.rows.length + k) 0xff = 0xff := by
          unfold Table.all
          rw [List.getD_eq_getElem?_getD, List.getElem?_map,
            List.getElem?_append_right (Nat.le_add_right _ _), Nat.add_sub_cancel_left,
            List.getElem?_eq_getElem hk]
          exact t.terminated _ (List.getElem_mem hk)
        rw [← Nat.add_assoc, lastPier, if_neg (not_not.mpr hterm)]
        exact ih (Nat.le_of_succ_le hk)
  unfold Table.all
  rw [List.length_append]
  exact hrest t.rest.length le_rfl

theorem Table.freq_lt (t : Table κ) {j k : Nat} {a b : Row κ} (hj : t.rows[j]? = some a)
    (hk : t.rows[k]? = some b) (hlt : j < k) : a.freq < b.freq := by
  obtain ⟨hj', rfl⟩ := List.getElem?_eq_some_iff.mp hj
  obtain ⟨hk', rfl⟩ := List.getElem?_eq_some_iff.mp hk
  exact List.pairwise_iff_getElem.mp t.increasing j k hj' hk' hlt

theorem Table.freq_le (t : Table κ) {j k : Nat} {a b : Row κ} (hj : t.rows[j]? = some a)
    (hk : t.rows[k]? = some b) (hle : j ≤ k) : a.freq ≤ b.freq := by
  rcases Nat.lt_or_eq_of_le hle with hlt | rfl
  · exact UInt8.le_of_lt (t.freq_lt hj hk hlt)
  · rw [Option.some.inj (hj.symm.trans hk)]
    exact UInt8.le_refl _

theorem Table.interpolate_eq {idx : Nat} {a b : Row κ} (ha : t.rows[idx]? = some a)
    (hb : t.rows[idx + 1]? = some b) (f : UInt8) (n : κ) :
    t.interpolate idx f n = interpolateU8 f a.freq (a.value n) b.freq (b.value n) := by
  unfold Table.interpolate
  rw [Table.all_getElem? ha, Table.all_getElem? hb]

/-- In the right segment, the interpolations are right unless a product overflows. -/
theorem Table.right_iff_fits {idx : Nat} {f : UInt8} (hcal : idx + 1 < t.rows.length)
    (hlow : ∀ a, t.rows[idx]? = some a → idx = 0 ∨ a.freq ≤ f)
    (hhigh : ∀ b, t.rows[idx + 1]? = some b → idx + 2 = t.rows.length ∨ f ≤ b.freq) :
    t.Right idx f ↔ t.Fits f := by
  constructor
  · intro h k a b ha hb hlt hgt n
    have hk := (List.getElem?_eq_some_iff.mp hb).1
    rcases Nat.lt_trichotomy k idx with hless | rfl | hmore
    · obtain ⟨a', ha'⟩ : ∃ a', t.rows[idx]? = some a' := ⟨_, List.getElem?_eq_getElem (by omega)⟩
      have hle := (hlow a' ha').resolve_left (by omega)
      have hstep := t.freq_le hb ha' hless
      exact absurd hgt (UInt8.not_lt.mpr (UInt8.le_trans hstep hle))
    · have hbetween := h.between a b ha hb (UInt8.le_of_lt hlt) (UInt8.le_of_lt hgt) n
      rw [Table.interpolate_eq ha hb] at hbetween
      exact (interpolateU8_between_iff (t.freq_lt ha hb (Nat.lt_succ_self _))
        (UInt8.le_of_lt hlt) (UInt8.le_of_lt hgt)).mp hbetween hlt hgt
    · obtain ⟨b', hb'⟩ : ∃ b', t.rows[idx + 1]? = some b' :=
        ⟨_, List.getElem?_eq_getElem (by omega)⟩
      have hle := (hhigh b' hb').resolve_left (by omega)
      have hstep := t.freq_le hb' ha hmore
      exact absurd hlt (UInt8.not_lt.mpr (UInt8.le_trans hle hstep))
  · intro h
    refine ⟨hcal, hlow, hhigh, fun a b ha hb hge hle n => ?_⟩
    rw [Table.interpolate_eq ha hb]
    exact (interpolateU8_between_iff (t.freq_lt ha hb (Nat.lt_succ_self _)) hge hle).mpr
      fun hlt hgt => h idx a b ha hb hlt hgt n

/-- A table of target powers is interpolated rightly if and only if it has two entries and no
product overflows. -/
theorem Table.right_target_iff (t : Table κ) (f : UInt8) :
    t.Right (t.targetIdx f) f ↔ 2 ≤ t.rows.length ∧ t.Fits f := by
  have hlen : t.pwrFreqs.length = t.rows.length := by rw [Table.pwrFreqs_eq, List.length_map]
  obtain ⟨hfound, habove⟩ := findFreqLoop_spec t.pwrFreqs f (t.rows.length - 1)
  unfold Table.targetIdx findFreqIdx
  rw [hlen]
  generalize findFreqLoop t.pwrFreqs f (t.rows.length - 1) = idx at hfound habove ⊢
  by_cases htwo : 2 ≤ t.rows.length
  · rw [and_iff_right htwo]
    have hcal : idx + 1 < t.rows.length := by
      rcases hfound with rfl | ⟨hlt, -⟩ <;> omega
    refine Table.right_iff_fits hcal (fun a ha => ?_) fun b hb => ?_
    · rw [Table.pwrFreqs_getD ha] at hfound
      exact hfound.imp_right And.right
    · refine or_iff_not_imp_left.mpr fun hend => ?_
      rw [← Table.pwrFreqs_getD hb]
      exact UInt8.le_of_lt (habove (idx + 1) (Nat.lt_succ_self idx) (by omega))
  · exact iff_of_false (fun h => htwo (by have := h.calibrated; omega)) fun h => htwo h.1

/-- The piers are interpolated rightly if and only if there are two of them, or more and the
frequency is not above the last but one, and no product overflows. -/
theorem Table.right_pier_iff (t : Table κ) (f : UInt8) :
    (∃ idx, t.pierIdx f = some idx ∧ t.Right idx f) ↔ 2 ≤ t.rows.length ∧ t.Fits f ∧
      (t.rows.length = 2 ∨ ∀ a, t.rows[t.rows.length - 2]? = some a → f ≤ a.freq) := by
  obtain ⟨hfound, habove⟩ := findFreqLoop_spec (t.all.map Row.freq) f (t.rows.length - 1 - 1)
  unfold Table.pierIdx findFreqIdx
  rw [Table.lastPier_eq, Option.map_some]
  simp only [Option.some.injEq, exists_eq_left']
  generalize findFreqLoop (t.all.map Row.freq) f (t.rows.length - 1 - 1) = idx at hfound habove ⊢
  by_cases htwo : 2 ≤ t.rows.length
  · rw [and_iff_right htwo]
    have hcal : idx + 1 < t.rows.length := by
      rcases hfound with rfl | ⟨hlt, -⟩ <;> omega
    have hlow (a : Row κ) (ha : t.rows[idx]? = some a) : idx = 0 ∨ a.freq ≤ f := by
      rw [t.freq_getD ha] at hfound
      exact hfound.imp_right And.right
    obtain ⟨b, hb⟩ : ∃ b, t.rows[idx + 1]? = some b := ⟨_, List.getElem?_eq_getElem hcal⟩
    constructor
    · intro h
      refine ⟨(Table.right_iff_fits hcal h.low h.high).mp h, or_iff_not_imp_left.mpr ?_⟩
      intro hmore a ha
      have hbefore : idx + 1 ≤ t.rows.length - 2 := by
        rcases hfound with rfl | ⟨hlt, -⟩ <;> omega
      have hle := (h.high b hb).resolve_left (by omega)
      exact UInt8.le_trans hle (t.freq_le hb ha hbefore)
    · rintro ⟨hfits, hpiers⟩
      refine (Table.right_iff_fits hcal hlow fun b' hb' => ?_).mpr hfits
      refine or_iff_not_imp_left.mpr fun hend => ?_
      obtain rfl := Option.some.inj (hb.symm.trans hb')
      rcases Nat.lt_or_ge (idx + 1) (t.rows.length - 1 - 1) with hlt | hge
      · have hlt' := habove (idx + 1) (Nat.lt_succ_self idx) hlt
        rw [t.freq_getD hb] at hlt'
        exact UInt8.le_of_lt hlt'
      · have hlast : idx + 1 = t.rows.length - 2 := by omega
        exact hpiers.resolve_left (by omega) b (hlast ▸ hb)
  · exact iff_of_false (fun h => htwo (by have := h.calibrated; omega)) fun h => htwo h.1

theorem interpolateValIdx_le (x : UInt8) (xArray : Nat → UInt8) (n i : Nat) :
    interpolateValIdx x xArray n i ≤ i + n := by
  induction n generalizing i with
  | zero => exact le_rfl
  | succ n ih =>
      unfold interpolateValIdx
      split_ifs
      · exact Nat.le_add_right _ _
      · have := ih (i + 1)
        omega

/-- The interpolations for a channel are right for exactly the tables and channels for which they
hold. -/
theorem calibration_conforms_iff (e : Eeprom) (channel : Channel) :
    TargetsConform e channel ↔ TargetsHold e channel := by
  constructor
  · intro h
    exact ⟨fun i => ((e.target i).right_target_iff _).mp (h.targets i),
      fun t f ht => (t.right_pier_iff f).mp (h.piers t f ht)⟩
  · intro h
    exact ⟨fun i => ((e.target i).right_target_iff _).mpr (h.targets i),
      fun t f ht => (t.right_pier_iff f).mpr (h.piers t f ht),
      fun x xArray => Nat.succ_le_succ (Nat.succ_le_succ (interpolateValIdx_le x xArray 3 0))⟩

/-- Three entries, for the channels 1, 7 and 13, and an unused one; the value is 40. -/
def threeRows : List (Row κ) := [⟨112, fun _ => 40⟩, ⟨142, fun _ => 40⟩, ⟨172, fun _ => 40⟩]

def unusedRows : List (Row κ) := [⟨0xff, fun _ => 0xff⟩]

theorem threeRows_ne : (threeRows : List (Row κ)) ≠ [] := nofun

theorem threeRows_increasing :
    (threeRows : List (Row κ)).Pairwise fun a b => a.freq < b.freq := by
  simp [threeRows]

theorem threeRows_calibrated : ∀ r ∈ (threeRows : List (Row κ)), r.freq ≠ 0xff := by
  simp [threeRows]

theorem unusedRows_terminated : ∀ r ∈ (unusedRows : List (Row κ)), r.freq = 0xff := by
  simp [unusedRows]

def threeTable : Table κ :=
  ⟨threeRows, unusedRows, threeRows_ne, threeRows_increasing, threeRows_calibrated,
    unusedRows_terminated⟩

/-- An EEPROM with the same frequencies in all tables. -/
def threeEeprom : Eeprom := ⟨fun _ => threeTable, threeTable, threeTable⟩

/-- For channel 10 the piers of the channels 1 and 7 are used, though 7 and 13 are around it. -/
theorem not_calibration_conforms_threeEeprom : ¬TargetsConform threeEeprom ⟨.ghz2, 2457⟩ := by
  intro h
  obtain ⟨-, -, htwo | hlast⟩ := (Table.right_pier_iff threeTable 157).mp (h.piers _ _ rfl)
  · exact absurd htwo (by decide)
  · exact absurd (hlast ⟨142, fun _ => 40⟩ rfl) (by decide)

end Calipso.Ar9170.Phy
