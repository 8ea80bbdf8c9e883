import Calipso.Wire.Memory

/-!
# Search with a stride

A pattern that ends in a run of `k` equal symbols can be found by probing every
`k`-th position only: one of the probes falls into the run of every occurrence.
Where a probe hits the symbol, the occurrences it may belong to are the `k`
alignments of the pattern whose run covers it.

An occurrence may reach beyond any buffer, as the memory does. A pattern that does
not overlap itself has at most one alignment at each probe, and so the first hit is
the first occurrence.
-/

namespace Calipso.Wire

section

variable {α : Type*}

/-- The pattern stands at the address `a`. -/
def OccursAt (m : Memory α) (pat : List α) (a : Int) : Prop :=
  window m a pat.length = pat

/-- Two occurrences of the pattern are never closer than its length. -/
def Borderless (pat : List α) : Prop :=
  ∀ d, 0 < d → d < pat.length → pat.drop d ≠ pat.take (pat.length - d)

/-- The pattern ends in a run of `k` symbols `c` that starts at `l`. -/
structure EndsInRun (pat : List α) (c : α) (l k : Nat) : Prop where
  length : pat.length = l + k
  run : ∀ i, i < k → pat[l + i]? = some c

variable {m : Memory α} {pat : List α} {c : α} {l k n : Nat} {a b x : Int}

/-- The pattern stands at `a` when each of its symbols does. -/
theorem occursAt_iff :
    OccursAt m pat a ↔ ∀ i, i < pat.length → pat[i]? = some (m (a + i)) := by
  constructor
  · intro h i hi
    rw [← h]
    exact getElem?_window (by simpa using hi)
  · intro h
    apply List.ext_getElem?
    intro i
    by_cases hi : i < pat.length
    · rw [getElem?_window hi, h i hi]
    · rw [List.getElem?_eq_none (by simpa using hi), List.getElem?_eq_none (by simpa using hi)]

theorem OccursAt.apply (h : OccursAt m pat a) {i : Nat} {s : α} (hi : pat[i]? = some s) :
    m (a + i) = s := by
  have hlt : i < pat.length := (List.getElem?_eq_some_iff.mp hi).1
  have := occursAt_iff.mp h i hlt
  rw [hi, Option.some.injEq] at this
  exact this.symm

/-- Occurrences of a borderless pattern do not overlap. -/
theorem OccursAt.not_overlap (hpat : Borderless pat) (ha : OccursAt m pat a)
    (hb : OccursAt m pat b) (hlt : a < b) : a + pat.length ≤ b := by
  by_contra hle
  obtain ⟨d, rfl⟩ : ∃ d : Nat, b = a + d := ⟨(b - a).toNat, by omega⟩
  have hd : 0 < d := by omega
  have hd' : d < pat.length := by omega
  apply hpat d hd hd'
  apply List.ext_getElem?
  intro i
  rw [List.getElem?_drop, List.getElem?_take]
  by_cases hi : d + i < pat.length
  · rw [if_pos (by omega), occursAt_iff.mp ha _ hi, occursAt_iff.mp hb i (by omega)]
    congr 2
    push_cast
    omega
  · rw [if_neg (by omega), List.getElem?_eq_none (by omega)]

/-- A probe in the run of an occurrence hits the symbol. -/
theorem EndsInRun.hit (hpat : EndsInRun pat c l k) (hocc : OccursAt m pat a)
    (hlo : a + l ≤ x) (hhi : x < a + l + k) : m x = c := by
  obtain ⟨i, rfl⟩ : ∃ i : Nat, x = a + l + i := ⟨(x - (a + l)).toNat, by omega⟩
  have := hocc.apply (hpat.run i (by omega))
  rw [← this]
  congr 1
  push_cast
  omega

end

section

variable {α : Type*} [DecidableEq α]

instance (m : Memory α) (pat : List α) (a : Int) : Decidable (OccursAt m pat a) :=
  inferInstanceAs (Decidable (_ = _))

/-- The first occurrence at `a`, `a - 1`, … -/
def align (m : Memory α) (pat : List α) : Nat → Int → Option Int
  | 0, _ => none
  | k + 1, a => if OccursAt m pat a then some a else align m pat k (a - 1)

/-- Probe `turns` positions from `x` on. The run of the pattern starts `l`
symbols behind its first one and consists of `k` symbols `c`. -/
def scan (m : Memory α) (pat : List α) (c : α) (l k : Nat) : Nat → Int → Option Int
  | 0, _ => none
  | turns + 1, x =>
      if m x = c then
        match align m pat k (x - l) with
        | some a => some a
        | none => scan m pat c l k turns (x + k)
      else scan m pat c l k turns (x + k)

variable {m : Memory α} {pat : List α} {c : α} {l k turns : Nat} {a b x : Int}

theorem align_eq_some (h : align m pat k a = some b) :
    OccursAt m pat b ∧ a - k < b ∧ b ≤ a := by
  induction k generalizing a with
  | zero => simp [align] at h
  | succ k ih =>
      rw [align] at h
      split at h
      next hocc =>
        rw [Option.some.injEq] at h
        subst h
        refine ⟨hocc, ?_, Int.le_refl _⟩
        omega
      next =>
        obtain ⟨hocc, hlo, hhi⟩ := ih h
        refine ⟨hocc, ?_, ?_⟩ <;> omega

theorem align_eq_none (h : align m pat k a = none) (hlo : a - k < b) (hhi : b ≤ a) :
    ¬ OccursAt m pat b := by
  induction k generalizing a with
  | zero => omega
  | succ k ih =>
      rw [align] at h
      split at h
      next => cases h
      next hocc =>
        by_cases hab : b = a
        · rw [hab]
          exact hocc
        · exact ih h (by omega) (by omega)

/-- The search fails when no occurrence is within its reach. -/
theorem scan_eq_none (hpat : EndsInRun pat c l k)
    (h : scan m pat c l k turns x = none) (hlo : x - l - k < b) (hhi : b ≤ x - l - k + k * turns) :
    ¬ OccursAt m pat b := by
  induction turns generalizing x with
  | zero => simp at hhi; omega
  | succ turns ih =>
      rw [Nat.cast_succ, Int.mul_add, Int.mul_one] at hhi
      rw [scan] at h
      by_cases hwindow : b ≤ x - l
      · split at h
        next hc =>
          split at h
          next => cases h
          next halign => exact align_eq_none halign (by omega) hwindow
        next hc =>
          intro hocc
          exact hc (hpat.hit hocc (by omega) (by omega))
      · have hnext : scan m pat c l k turns (x + k) = none := by
          split at h
          next =>
            split at h
            next => cases h
            next => exact h
          next => exact h
        exact ih hnext (by omega) (by omega)

/-- What the search finds is the first occurrence within its reach. -/
theorem scan_eq_some (hpat : EndsInRun pat c l k) (hborder : Borderless pat)
    (h : scan m pat c l k turns x = some a) :
    OccursAt m pat a ∧ x - l - k < a ∧ a ≤ x - l - k + k * turns ∧
      ∀ b, x - l - k < b → b < a → ¬ OccursAt m pat b := by
  induction turns generalizing x with
  | zero => simp [scan] at h
  | succ turns ih =>
      have hmul : ((k : Int) * ((turns + 1 : Nat) : Int)) = k * turns + k := by
        rw [Nat.cast_succ, Int.mul_add, Int.mul_one]
      have hnonneg : (0 : Int) ≤ k * turns := Int.mul_nonneg (by omega) (by omega)
      have hlen := hpat.length
      -- nothing is aligned to this probe, so the rest of the search decides
      have later (hnone : ∀ b, x - l - k < b → b ≤ x - l → ¬ OccursAt m pat b)
          (h : scan m pat c l k turns (x + k) = some a) :
          OccursAt m pat a ∧ x - l - k < a ∧ a ≤ x - l - k + k * ((turns + 1 : Nat) : Int) ∧
            ∀ b, x - l - k < b → b < a → ¬ OccursAt m pat b := by
        obtain ⟨hocc, hlo, hhi, hfirst⟩ := ih h
        refine ⟨hocc, by omega, by omega, fun b hb hba => ?_⟩
        by_cases hwindow : b ≤ x - l
        · exact hnone b hb hwindow
        · exact hfirst b (by omega) hba
      rw [scan] at h
      split at h
      next hc =>
        split at h
        next a' halign =>
          rw [Option.some.injEq] at h
          subst h
          obtain ⟨hocc, hlo, hhi⟩ := align_eq_some halign
          refine ⟨hocc, by omega, by omega, fun b hb hba hoccb => ?_⟩
          have := hoccb.not_overlap hborder hocc hba
          omega
        next halign => exact later (fun b hb hb' => align_eq_none halign hb hb') h
      next hc =>
        apply later _ h
        intro b hb hb' hocc
        exact hc (hpat.hit hocc (by omega) (by omega))

/-- The search finds the first occurrence within its reach. -/
theorem scan_of_first (hpat : EndsInRun pat c l k) (hborder : Borderless pat)
    (hocc : OccursAt m pat a) (hlo : x - l - k < a) (hhi : a ≤ x - l - k + k * turns)
    (hfirst : ∀ b, x - l - k < b → b < a → ¬ OccursAt m pat b) :
    scan m pat c l k turns x = some a := by
  cases h : scan m pat c l k turns x with
  | none => exact absurd hocc (scan_eq_none hpat h hlo hhi)
  | some b =>
      obtain ⟨hoccb, hlob, hhib, hfirstb⟩ := scan_eq_some hpat hborder h
      rcases Int.lt_trichotomy a b with hab | hab | hab
      · exact absurd hocc (hfirstb a hlo hab)
      · rw [hab]
      · exact absurd hoccb (hfirst b hlob hab)

/-- The search fails exactly when no occurrence is within its reach. -/
theorem scan_eq_none_iff (hpat : EndsInRun pat c l k) (hborder : Borderless pat) :
    scan m pat c l k turns x = none ↔
      ∀ b, x - l - k < b → b ≤ x - l - k + k * turns → ¬ OccursAt m pat b := by
  constructor
  · intro h b
    exact scan_eq_none hpat h
  · intro h
    cases hscan : scan m pat c l k turns x with
    | none => rfl
    | some b =>
        obtain ⟨hocc, hlo, hhi, -⟩ := scan_eq_some hpat hborder hscan
        exact absurd hocc (h b hlo hhi)

end

end Calipso.Wire
