import Mathlib.Data.List.Flatten
import Mathlib.Tactic.ByContra
import Mathlib.Tactic.SplitIfs

/-!
# Writing registers in batches

The macros of `usb_cmd_wrapper.h` gather pairs of a register and a value and send them to the
device in commands of seven pairs. `regwrite_conforms_iff` says for which outcomes of the tests,
allocations and commands the macros do what they should.
-/

namespace Calipso.Ar9170.Wreg

/-! ### Outcomes -/

/-- A register and its value. -/
abbrev Pair := UInt32 × UInt32

/-- What comes of the tests `IS_ACCEPTING_CMD`, of the calls of `ar9170_cmd_buf`, and of the
commands, each by its number. -/
structure Outcomes where
  accepting : Nat → Bool
  buffer : Nat → Bool
  submitted : Nat → Bool

/-- A `CARL9170_CMD_WREG` or `CARL9170_CMD_WREG_ASYNC`, and whether it was submitted. -/
structure WregCmd where
  regs : List Pair
  len : Nat
  ok : Bool
  deriving DecidableEq

/-- `PAYLOAD_MAX` -/
def payloadMax : Nat := 64 / 4 - 1

/-- The pairs of a command: `PAYLOAD_MAX / 2`. -/
def regsMax : Nat := payloadMax / 2

def enomem : Int := 12

/-! ### Synchronous writes -/

/-- The tests so far, `__nreg` pairs of the buffer, the commands so far, and `__err`. -/
structure Batch where
  tests : Nat
  regs : List Pair
  cmds : List WregCmd
  err : Int
  deriving DecidableEq

/-- `ar9170_regwrite_begin` -/
def regwriteBegin : Batch := ⟨0, [], [], 0⟩

variable (o : Outcomes)

/-- The command with the pairs of the buffer. -/
def Batch.exec (s : Batch) : Batch :=
  { s with
    cmds := s.cmds ++ [⟨s.regs, 8 * s.regs.length, o.submitted s.cmds.length⟩]
    err := if o.submitted s.cmds.length then 0 else 1 }

/-- `IS_ACCEPTING_CMD` is asked once more. -/
def Batch.tested (s : Batch) : Batch := { s with tests := s.tests + 1 }

/-- `ar9170_regwrite`; true is a jump to `__regwrite_out`. -/
def regwrite (p : Pair) (s : Batch) : Batch × Bool :=
  let s := { s with regs := s.regs ++ [p] }
  if regsMax ≤ s.regs.length then
    if o.accepting s.tests then
      let s := { s.tested.exec o with regs := [] }
      (s, s.err ≠ 0)
    else
      (s.tested, true)
  else
    (s, false)

/-- A sequence of `ar9170_regwrite`. -/
def regwrites : List Pair → Batch → Batch
  | [], s => s
  | p :: ps, s =>
      if (regwrite o p s).2 then (regwrite o p s).1 else regwrites ps (regwrite o p s).1

/-- `ar9170_regwrite_finish` -/
def regwriteFinish (s : Batch) : Batch :=
  if s.err = 0 ∧ s.regs ≠ [] then
    if o.accepting s.tests then { s.tested.exec o with regs := [] }
    else { s.tested with regs := [] }
  else
    s

/-- The macros from `ar9170_regwrite_begin` to `ar9170_regwrite_finish`. -/
def regwriteRun (ps : List Pair) : Batch := regwriteFinish o (regwrites o ps regwriteBegin)

/-! ### Asynchronous writes -/

/-- `__cmd` is a buffer by the number of the call that gave it; with it go the calls so far and
the buffers that are freed. -/
structure AsyncBatch extends Batch where
  cmd : Option Nat
  asked : Nat
  freed : List Nat
  deriving DecidableEq

/-- `ar9170_async_regwrite_get_buf`; true is a jump to `__async_regwrite_out`. -/
def asyncRegwriteGetBuf (s : AsyncBatch) : AsyncBatch × Bool :=
  if o.buffer s.asked then
    ({ s with regs := [], cmd := some s.asked, asked := s.asked + 1 }, false)
  else
    ({ s with regs := [], cmd := none, asked := s.asked + 1, err := -enomem }, true)

/-- `ar9170_async_regwrite_begin` -/
def asyncRegwriteBegin : AsyncBatch × Bool :=
  asyncRegwriteGetBuf o ⟨⟨0, [], [], 0⟩, none, 0, []⟩

/-- `ar9170_async_regwrite_flush` -/
def asyncRegwriteFlush (s : AsyncBatch) : AsyncBatch × Bool :=
  if s.cmd = none ∨ s.regs = [] then (s, false)
  else if o.accepting s.tests then
    ({ s with toBatch := s.tested.exec o, cmd := none }, false)
  else
    ({ s with toBatch := s.tested }, true)

/-- `ar9170_async_regwrite` -/
def asyncRegwrite (p : Pair) (s : AsyncBatch) : AsyncBatch × Bool :=
  let r := if s.cmd = none then asyncRegwriteGetBuf o s else (s, false)
  if r.2 then r
  else
    let s := { r.1 with regs := r.1.regs ++ [p] }
    if regsMax ≤ s.regs.length then asyncRegwriteFlush o s else (s, false)

/-- A sequence of `ar9170_async_regwrite`. -/
def asyncRegwrites : List Pair → AsyncBatch → AsyncBatch
  | [], s => s
  | p :: ps, s =>
      if (asyncRegwrite o p s).2 then (asyncRegwrite o p s).1
      else asyncRegwrites ps (asyncRegwrite o p s).1

/-- `free(__cmd)` -/
def AsyncBatch.free (s : AsyncBatch) : AsyncBatch := { s with freed := s.freed ++ s.cmd.toList }

/-- `ar9170_async_regwrite_finish`, where the label is come to at most `n` times. -/
def asyncRegwriteFinish : Nat → AsyncBatch → Option AsyncBatch
  | 0, _ => none
  | n + 1, s =>
      if s.cmd ≠ none ∧ s.err = 0 then
        if (asyncRegwriteFlush o s).2 then asyncRegwriteFinish n (asyncRegwriteFlush o s).1
        else some (asyncRegwriteFlush o s).1.free
      else
        some s.free

/-- The macros from `ar9170_async_regwrite_begin` to `ar9170_async_regwrite_finish`. -/
def asyncRegwriteRun (n : Nat) (ps : List Pair) : Option AsyncBatch :=
  asyncRegwriteFinish o n
    (if (asyncRegwriteBegin o).2 then (asyncRegwriteBegin o).1
      else asyncRegwrites o ps (asyncRegwriteBegin o).1)

/-! ### What is asked of the macros -/

/-- The pairs that were submitted, in their order. -/
def Batch.sent (s : Batch) : List Pair := (s.cmds.filter WregCmd.ok).flatMap WregCmd.regs

/-- The pairs submitted are the first ones of the sequence, in commands that are not too long, and
the result is 0 when they are all. -/
structure Batch.Sound (ps : List Pair) (s : Batch) : Prop where
  order : s.sent <+: ps
  cmds : ∀ c ∈ s.cmds, c.regs.length ≤ regsMax ∧ c.len = 8 * c.regs.length
  result : s.err = 0 ↔ s.sent = ps

inductive Variant
  | sync
  | async

/-- The macros end and are sound; every buffer that was had is freed once, and no other one. -/
def Conforms (ps : List Pair) : Variant → Prop
  | .sync => (regwriteRun o ps).Sound ps
  | .async => ∃ n s, asyncRegwriteRun o n ps = some s ∧ s.Sound ps ∧
      ∀ b, s.freed.count b = if b < s.asked ∧ o.buffer b = true then 1 else 0

/-- The outcomes for which the macros conform. Synchronous: where the device does not accept the
first batch that is not submitted, the batch is full, the device accepts it at the next test, and
the command fails or was the last one. Asynchronous: there is a buffer and no pair, or the other
way round. -/
def Holds (ps : List Pair) : Variant → Prop
  | .sync => ∀ j, regsMax * j < ps.length →
      (∀ i < j, o.accepting i = true ∧ o.submitted i = true) → o.accepting j = false →
      regsMax * (j + 1) ≤ ps.length ∧ o.accepting (j + 1) = true ∧
        (o.submitted j = false ∨ regsMax * (j + 1) = ps.length)
  | .async => o.buffer 0 = true ↔ ps = []

/-! ### What is sent -/

variable {o : Outcomes}

theorem regsMax_eq : regsMax = 7 := rfl

theorem Batch.sent_exec (s : Batch) : (s.exec o).sent =
    s.sent ++ if o.submitted s.cmds.length then s.regs else [] := by
  unfold Batch.sent Batch.exec
  cases o.submitted s.cmds.length <;> simp [List.filter_append]

/-- No command is longer than it may be. -/
def Batch.Short (s : Batch) : Prop :=
  ∀ c ∈ s.cmds, c.regs.length ≤ regsMax ∧ c.len = 8 * c.regs.length

theorem Batch.Short.exec {s : Batch} (h : s.Short) (hlen : s.regs.length ≤ regsMax) :
    (s.exec o).Short := by
  intro c hc
  rcases List.mem_append.mp hc with hc | hc
  · exact h c hc
  · rw [List.mem_singleton.mp hc]
    exact ⟨hlen, rfl⟩

/-! ### Synchronous batches -/

/-- The outcomes from the test `k` on with which `m` pairs are written as they should be. -/
def HoldsFrom (o : Outcomes) (k m : Nat) : Prop :=
  ∀ j, regsMax * j < m → (∀ i < j, o.accepting (k + i) = true ∧ o.submitted (k + i) = true) →
    o.accepting (k + j) = false →
    regsMax * (j + 1) ≤ m ∧ o.accepting (k + j + 1) = true ∧
      (o.submitted (k + j) = false ∨ regsMax * (j + 1) = m)

theorem holdsFrom_nil (k : Nat) : HoldsFrom o k 0 := fun _ hj => absurd hj (Nat.not_lt_zero _)

theorem holdsFrom_part {k m : Nat} (hpos : 0 < m) (hlt : m < regsMax) :
    HoldsFrom o k m ↔ o.accepting k = true := by
  constructor
  · intro h
    by_contra hnot
    have hall := (h 0 hpos (fun i hi => absurd hi (Nat.not_lt_zero i)) (by simpa using hnot)).1
    omega
  · intro hacc j hj _ hnot
    have hzero : j = 0 := by
      rw [regsMax_eq] at hj hlt
      omega
    subst hzero
    rw [Nat.add_zero, hacc] at hnot
    cases hnot

/-- The first batch is submitted. -/
theorem holdsFrom_submitted {k m : Nat} (hacc : o.accepting k = true)
    (hsub : o.submitted k = true) : HoldsFrom o k (m + regsMax) ↔ HoldsFrom o (k + 1) m := by
  constructor
  · intro h j hj hbefore hnot
    have hshift (i : Nat) : k + 1 + i = k + (i + 1) := by omega
    rw [hshift] at hnot ⊢
    have hj' : regsMax * (j + 1) < m + regsMax := by
      rw [Nat.mul_succ]
      omega
    have hbefore' : ∀ i < j + 1, o.accepting (k + i) = true ∧ o.submitted (k + i) = true := by
      intro i hi
      cases i with
      | zero => exact ⟨hacc, hsub⟩
      | succ i =>
          have hone := hbefore i (Nat.lt_of_succ_lt_succ hi)
          rwa [hshift] at hone
    obtain ⟨hfull, hnext, hend⟩ := h (j + 1) hj' hbefore' hnot
    rw [Nat.mul_succ] at hfull hend
    exact ⟨by omega, hnext, hend.imp_right fun heq => by omega⟩
  · intro h j hj hbefore hnot
    cases j with
    | zero =>
        rw [Nat.add_zero, hacc] at hnot
        cases hnot
    | succ j =>
        have hshift (i : Nat) : k + (i + 1) = k + 1 + i := by omega
        rw [hshift] at hnot ⊢
        have hj' : regsMax * j < m := by
          rw [Nat.mul_succ] at hj
          omega
        have hbefore' : ∀ i < j,
            o.accepting (k + 1 + i) = true ∧ o.submitted (k + 1 + i) = true := by
          intro i hi
          have hone := hbefore (i + 1) (Nat.succ_lt_succ hi)
          rwa [hshift] at hone
        obtain ⟨hfull, hnext, hend⟩ := h j hj' hbefore' hnot
        rw [Nat.mul_succ]
        exact ⟨by omega, hnext, hend.imp_right fun heq => by omega⟩

/-- The command of the first batch fails. -/
theorem holdsFrom_failed {k m : Nat} (hacc : o.accepting k = true)
    (hfail : o.submitted k = false) : HoldsFrom o k m := by
  intro j _ hbefore hnot
  cases j with
  | zero =>
      rw [Nat.add_zero, hacc] at hnot
      cases hnot
  | succ j =>
      have hone := (hbefore 0 (Nat.succ_pos j)).2
      rw [Nat.add_zero, hfail] at hone
      cases hone

/-- The device does not accept the first batch. -/
theorem holdsFrom_refused {k m : Nat} (hrefused : o.accepting k = false) :
    HoldsFrom o k (m + regsMax) ↔
      o.accepting (k + 1) = true ∧ (o.submitted k = false ∨ m = 0) := by
  constructor
  · intro h
    obtain ⟨-, hnext, hend⟩ := h 0 (Nat.lt_of_lt_of_le (by decide) (Nat.le_add_left regsMax m))
      (fun i hi => absurd hi (Nat.not_lt_zero i)) hrefused
    refine ⟨hnext, hend.imp_right fun heq => ?_⟩
    omega
  · rintro ⟨hnext, hend⟩ j _ hbefore _
    cases j with
    | zero =>
        refine ⟨by omega, hnext, hend.imp_right fun heq => ?_⟩
        omega
    | succ j =>
        have hone := (hbefore 0 (Nat.succ_pos j)).1
        rw [Nat.add_zero, hrefused] at hone
        cases hone

/-- The writer goes on: all commands were submitted, and the buffer is not full. -/
structure Batch.Going (s : Batch) : Prop where
  err : s.err = 0
  short : s.Short
  regs : s.regs.length < regsMax
  tests : s.tests = s.cmds.length

/-- What comes of the pairs `rest` that the writer has yet to send. -/
structure Batch.Wrote (o : Outcomes) (s : Batch) (rest : List Pair) (t : Batch) : Prop where
  short : t.Short
  order : t.sent <+: s.sent ++ rest
  result : (t.err = 0 ↔ t.sent = s.sent ++ rest) ↔ HoldsFrom o s.tests rest.length

/-- No pair of the rest is sent. -/
theorem Batch.wrote_none {s t : Batch} {rest : List Pair} (hshort : t.Short)
    (hsent : t.sent = s.sent) (hrest : rest ≠ [])
    (hresult : t.err ≠ 0 ↔ HoldsFrom o s.tests rest.length) : s.Wrote o rest t where
  short := hshort
  order := hsent ▸ List.prefix_append _ _
  result := by
    have hmissing : ¬t.sent = s.sent ++ rest := fun heq =>
      hrest (List.append_cancel_left (heq.symm.trans (hsent.trans (List.append_nil _).symm)))
    rw [iff_false_right hmissing]
    exact hresult

/-- The first pairs of the rest are sent, with the result 0. -/
theorem Batch.wrote_first {s t : Batch} {first rest : List Pair} (hshort : t.Short)
    (hsent : t.sent = s.sent ++ first) (herr : t.err = 0)
    (hresult : rest = [] ↔ HoldsFrom o s.tests (first ++ rest).length) :
    s.Wrote o (first ++ rest) t where
  short := hshort
  order := by
    rw [hsent, ← List.append_assoc]
    exact List.prefix_append _ _
  result := by
    rw [← hresult, hsent, herr, ← List.append_assoc]
    simp

theorem regwriteFinish_wrote {s : Batch} (hs : s.Going) :
    s.Wrote o s.regs (regwriteFinish o s) := by
  have hshort : (s.tested.exec o).Short := hs.short.exec (Nat.le_of_lt hs.regs)
  have hsent : (s.tested.exec o).sent = _ := Batch.sent_exec _
  unfold regwriteFinish
  by_cases hnil : s.regs = []
  · rw [if_neg fun h => h.2 hnil, hnil]
    have hall : s.sent = s.sent ++ [] := (List.append_nil _).symm
    exact ⟨hs.short, List.prefix_append _ _,
      iff_of_true (iff_of_true hs.err hall) (holdsFrom_nil _)⟩
  · have hpart := holdsFrom_part (o := o) (k := s.tests) (List.length_pos_iff.mpr hnil) hs.regs
    rw [if_pos ⟨hs.err, hnil⟩]
    cases hacc : o.accepting s.tests with
    | false =>
        rw [if_neg Bool.false_ne_true]
        refine Batch.wrote_none hs.short rfl hnil (iff_of_false (fun h => h hs.err) ?_)
        rw [hpart, hacc]
        exact Bool.false_ne_true
    | true =>
        rw [if_pos rfl]
        cases hsub : o.submitted s.cmds.length with
        | false =>
            refine Batch.wrote_none hshort ?_ hnil (iff_of_true ?_ (hpart.mpr hacc))
            · exact hsent.trans (by simp [Batch.tested, hsub]; rfl)
            · simp [Batch.exec, Batch.tested, hsub]
        | true =>
            have hwrote : s.Wrote o (s.regs ++ []) { s.tested.exec o with regs := [] } := by
              refine Batch.wrote_first hshort ?_ ?_ (iff_of_true rfl ?_)
              · exact hsent.trans (by simp [Batch.tested, hsub]; rfl)
              · simp [Batch.exec, Batch.tested, hsub]
              · rw [List.append_nil]
                exact hpart.mpr hacc
            rwa [List.append_nil] at hwrote

/-- The writer behind a pair that does not fill the buffer. -/
theorem regwrite_of_lt {s : Batch} (p : Pair) (hs : s.Going) (hlt : s.regs.length + 1 < regsMax) :
    regwrite o p s = ({ s with regs := s.regs ++ [p] }, false) ∧
      ({ s with regs := s.regs ++ [p] } : Batch).Going := by
  have hlen : (s.regs ++ [p]).length < regsMax := by
    rw [List.length_append]
    exact hlt
  unfold regwrite
  simp only
  rw [if_neg (Nat.not_le.mpr hlen)]
  exact ⟨rfl, hs.err, hs.short, hlen, hs.tests⟩

/-- A pair that fills the buffer. -/
theorem regwrite_of_eq {s : Batch} (p : Pair) (hfull : s.regs.length + 1 = regsMax) :
    regwrite o p s = if o.accepting s.tests then
      ({ ({ s with regs := s.regs ++ [p] } : Batch).tested.exec o with regs := [] },
        !o.submitted s.cmds.length) else
      (({ s with regs := s.regs ++ [p] } : Batch).tested, true) := by
  have hlen : (s.regs ++ [p]).length = regsMax := by
    rw [List.length_append]
    exact hfull
  unfold regwrite
  simp only
  rw [if_pos (Nat.le_of_eq hlen.symm)]
  split_ifs
  · refine Prod.ext rfl ?_
    cases hsub : o.submitted s.cmds.length <;> simp [Batch.exec, Batch.tested, hsub]
  · rfl

/-- The device does not accept a full buffer when it is full; the label sends it once more. -/
theorem refused_wrote {s : Batch} {full rest : List Pair} (hs : s.Going)
    (hlen : full.length = regsMax) (hacc : o.accepting s.tests = false) :
    s.Wrote o (full ++ rest) (regwriteFinish o ({ s with regs := full } : Batch).tested) := by
  have hnil : full ≠ [] := List.ne_nil_of_length_pos (hlen ▸ by decide)
  have hrest : full ++ rest ≠ [] := List.append_ne_nil_of_left_ne_nil hnil _
  have hholds := holdsFrom_refused (m := rest.length) hacc
  have hcount : (full ++ rest).length = rest.length + regsMax := by
    rw [List.length_append, hlen, Nat.add_comm]
  rw [← hcount] at hholds
  have hfinish : regwriteFinish o ({ s with regs := full } : Batch).tested =
      if o.accepting (s.tests + 1) then
        { ({ s with regs := full } : Batch).tested.tested.exec o with regs := [] }
      else { ({ s with regs := full } : Batch).tested.tested with regs := [] } :=
    if_pos ⟨hs.err, hnil⟩
  rw [hfinish]
  cases hnext : o.accepting (s.tests + 1) with
  | false =>
      rw [if_neg Bool.false_ne_true]
      refine Batch.wrote_none hs.short rfl hrest (iff_of_false (fun h => h hs.err) ?_)
      rw [hholds, hnext]
      exact fun h => Bool.false_ne_true h.1
  | true =>
      have hshort : (({ s with regs := full } : Batch).tested.tested.exec o).Short :=
        Batch.Short.exec hs.short (Nat.le_of_eq hlen)
      have hsent : (({ s with regs := full } : Batch).tested.tested.exec o).sent = _ :=
        Batch.sent_exec _
      rw [hnext, hs.tests] at hholds
      rw [if_pos rfl]
      cases hsub : o.submitted s.cmds.length with
      | true =>
          refine Batch.wrote_first hshort ?_ ?_ ?_
          · exact hsent.trans (by simp [Batch.tested, hsub, Batch.sent])
          · simp [Batch.exec, Batch.tested, hsub]
          · rw [hs.tests, hholds, hsub]
            simp
      | false =>
          refine Batch.wrote_none hshort ?_ hrest (iff_of_true ?_ ?_)
          · exact hsent.trans (by simp [Batch.tested, hsub, Batch.sent])
          · simp [Batch.exec, Batch.tested, hsub]
          · rw [hs.tests, hholds, hsub]
            simp

/-- The command with a full buffer fails. -/
theorem failed_wrote {s : Batch} {full rest : List Pair} (hs : s.Going)
    (hlen : full.length = regsMax) (hacc : o.accepting s.tests = true)
    (hfail : o.submitted s.cmds.length = false) :
    s.Wrote o (full ++ rest) (regwriteFinish o
      { ({ s with regs := full } : Batch).tested.exec o with regs := [] }) := by
  have hnil : full ≠ [] := List.ne_nil_of_length_pos (hlen ▸ by decide)
  have herr : (({ s with regs := full } : Batch).tested.exec o).err ≠ 0 := by
    simp [Batch.exec, Batch.tested, hfail]
  have hend : regwriteFinish o { ({ s with regs := full } : Batch).tested.exec o with
      regs := [] } = _ := if_neg fun h => herr h.1
  have hsent : (({ s with regs := full } : Batch).tested.exec o).sent = _ := Batch.sent_exec _
  rw [hend]
  refine Batch.wrote_none (Batch.Short.exec hs.short (Nat.le_of_eq hlen)) ?_
    (List.append_ne_nil_of_left_ne_nil hnil _)
    (iff_of_true herr (holdsFrom_failed hacc (hs.tests ▸ hfail)))
  exact hsent.trans (by simp [Batch.tested, hfail, Batch.sent])

/-- What comes of a sequence of pairs. -/
theorem regwrites_wrote (ps : List Pair) {s : Batch} (hs : s.Going) :
    s.Wrote o (s.regs ++ ps) (regwriteFinish o (regwrites o ps s)) := by
  induction ps generalizing s with
  | nil =>
      rw [List.append_nil]
      exact regwriteFinish_wrote hs
  | cons p ps ih =>
      have hsplit : s.regs ++ p :: ps = (s.regs ++ [p]) ++ ps := by simp
      rw [hsplit, regwrites]
      by_cases hlt : s.regs.length + 1 < regsMax
      · obtain ⟨heq, hgoing⟩ := regwrite_of_lt (o := o) p hs hlt
        rw [heq, if_neg Bool.false_ne_true]
        have hwrote := ih hgoing
        exact ⟨hwrote.short, hwrote.order, hwrote.result⟩
      · have hfull : s.regs.length + 1 = regsMax := by
          have hregs := hs.regs
          omega
        have hlen : (s.regs ++ [p]).length = regsMax := by
          rw [List.length_append]
          exact hfull
        rw [regwrite_of_eq p hfull]
        cases hacc : o.accepting s.tests with
        | false =>
            rw [if_neg Bool.false_ne_true, if_pos rfl]
            exact refused_wrote hs hlen hacc
        | true =>
            rw [if_pos rfl]
            cases hsub : o.submitted s.cmds.length with
            | false =>
                rw [if_pos Bool.not_false]
                exact failed_wrote hs hlen hacc hsub
            | true =>
                rw [if_neg (by simp)]
                have hshort : (({ s with regs := s.regs ++ [p] } : Batch).tested.exec o).Short :=
                  Batch.Short.exec hs.short (Nat.le_of_eq hlen)
                have hgoing : ({ ({ s with regs := s.regs ++ [p] } : Batch).tested.exec o with
                    regs := [] } : Batch).Going := by
                  refine ⟨?_, hshort, Nat.zero_lt_succ 6, ?_⟩
                  · simp [Batch.exec, Batch.tested, hsub]
                  · simp [Batch.exec, Batch.tested, hs.tests]
                have hwrote := ih hgoing
                have hall : (({ s with regs := s.regs ++ [p] } : Batch).tested.exec o).sent ++
                    ps = s.sent ++ ((s.regs ++ [p]) ++ ps) := by
                  rw [Batch.sent_exec]
                  simp [Batch.tested, hsub, Batch.sent]
                have hcount : ((s.regs ++ [p]) ++ ps).length = ps.length + regsMax := by
                  rw [List.length_append, hlen, Nat.add_comm]
                refine ⟨hwrote.short, hall ▸ hwrote.order, ?_⟩
                rw [← hall, hcount, holdsFrom_submitted hacc (hs.tests ▸ hsub)]
                exact hwrote.result

theorem conforms_sync_iff (ps : List Pair) : Conforms o ps .sync ↔ Holds o ps .sync := by
  have hgoing : regwriteBegin.Going :=
    ⟨rfl, List.forall_mem_nil _, Nat.zero_lt_succ 6, rfl⟩
  have hwrote := regwrites_wrote (o := o) ps hgoing
  have hholds : HoldsFrom o 0 ps.length ↔ Holds o ps .sync := by
    simp only [HoldsFrom, Holds, Nat.zero_add]
  rw [← hholds]
  constructor
  · exact fun h => hwrote.result.mp h.result
  · exact fun h => ⟨hwrote.order, hwrote.short, hwrote.result.mpr h⟩

/-! ### Asynchronous batches -/

/-- A buffer that was had can be freed no more. -/
def AsyncBatch.Leaking (o : Outcomes) (s : AsyncBatch) : Prop :=
  s.freed = [] ∧ ∃ b < s.asked, o.buffer b = true ∧ s.cmd ≠ some b

/-- Pairs are gathered in the first buffer. -/
structure AsyncBatch.First (s : AsyncBatch) : Prop where
  freed : s.freed = []
  cmd : s.cmd = some 0
  asked : s.asked = 1
  err : s.err = 0

theorem AsyncBatch.Leaking.getBuf {s : AsyncBatch} (h : s.Leaking o) :
    (asyncRegwriteGetBuf o s).1.Leaking o := by
  obtain ⟨hfreed, b, hlt, hbuffer, -⟩ := h
  unfold asyncRegwriteGetBuf
  split_ifs
  · refine ⟨hfreed, b, Nat.lt_succ_of_lt hlt, hbuffer, fun heq => ?_⟩
    exact Nat.ne_of_gt hlt (Option.some.inj heq)
  · exact ⟨hfreed, b, Nat.lt_succ_of_lt hlt, hbuffer, nofun⟩

theorem AsyncBatch.Leaking.flush {s : AsyncBatch} (h : s.Leaking o) :
    (asyncRegwriteFlush o s).1.Leaking o := by
  obtain ⟨hfreed, b, hlt, hbuffer, hcmd⟩ := h
  unfold asyncRegwriteFlush
  split_ifs
  · exact ⟨hfreed, b, hlt, hbuffer, hcmd⟩
  · exact ⟨hfreed, b, hlt, hbuffer, nofun⟩
  · exact ⟨hfreed, b, hlt, hbuffer, hcmd⟩

theorem AsyncBatch.Leaking.regwrite {s : AsyncBatch} (p : Pair) (h : s.Leaking o) :
    (asyncRegwrite o p s).1.Leaking o := by
  have hhad : (if s.cmd = none then asyncRegwriteGetBuf o s else (s, false)).1.Leaking o := by
    split_ifs
    · exact h.getBuf
    · exact h
  unfold asyncRegwrite
  generalize (if s.cmd = none then asyncRegwriteGetBuf o s else (s, false)) = r at hhad ⊢
  have hadded : ({ r.1 with regs := r.1.regs ++ [p] } : AsyncBatch).Leaking o := hhad
  simp only
  split_ifs
  · exact hhad
  · exact hadded.flush
  · exact hadded

/-- A command is sent, or the first buffer is kept. -/
theorem AsyncBatch.First.flush {s : AsyncBatch} (h : s.First) (hregs : s.regs ≠ [])
    (hbuffer : o.buffer 0 = true) :
    (asyncRegwriteFlush o s).1.Leaking o ∧ (asyncRegwriteFlush o s).2 = false ∨
      (asyncRegwriteFlush o s).1.First ∧ (asyncRegwriteFlush o s).1.regs ≠ [] ∧
        (asyncRegwriteFlush o s).2 = true := by
  have hbusy : ¬(s.cmd = none ∨ s.regs = []) := by
    rintro (hnone | hnil)
    · exact Option.some_ne_none 0 (h.cmd.symm.trans hnone)
    · exact hregs hnil
  unfold asyncRegwriteFlush
  rw [if_neg hbusy]
  split_ifs
  · exact .inl ⟨⟨h.freed, 0, h.asked ▸ Nat.one_pos, hbuffer, nofun⟩, rfl⟩
  · exact .inr ⟨⟨h.freed, h.cmd, h.asked, h.err⟩, hregs, rfl⟩

theorem AsyncBatch.First.regwrite {s : AsyncBatch} (p : Pair) (h : s.First)
    (hbuffer : o.buffer 0 = true) :
    (asyncRegwrite o p s).1.Leaking o ∨
      (asyncRegwrite o p s).1.First ∧ (asyncRegwrite o p s).1.regs ≠ [] := by
  have hcmd : s.cmd ≠ none := fun hnone => Option.some_ne_none 0 (h.cmd.symm.trans hnone)
  have hregs : s.regs ++ [p] ≠ [] := List.append_ne_nil_of_right_ne_nil _ nofun
  have hadded : ({ s with regs := s.regs ++ [p] } : AsyncBatch).First :=
    ⟨h.freed, h.cmd, h.asked, h.err⟩
  unfold asyncRegwrite
  simp only [if_neg hcmd, Bool.false_eq_true, if_false]
  split_ifs
  · rcases hadded.flush hregs hbuffer with ⟨hleak, -⟩ | ⟨hfirst, hkept, -⟩
    · exact .inl hleak
    · exact .inr ⟨hfirst, hkept⟩
  · exact .inr ⟨hadded, hregs⟩

theorem AsyncBatch.Leaking.regwrites (ps : List Pair) {s : AsyncBatch} (h : s.Leaking o) :
    (asyncRegwrites o ps s).Leaking o := by
  induction ps generalizing s with
  | nil => exact h
  | cons p ps ih =>
      unfold asyncRegwrites
      split_ifs
      · exact h.regwrite p
      · exact ih (h.regwrite p)

theorem AsyncBatch.First.regwrites (ps : List Pair) {s : AsyncBatch} (h : s.First)
    (hbuffer : o.buffer 0 = true) (hregs : s.regs ≠ [] ∨ ps ≠ []) :
    (asyncRegwrites o ps s).Leaking o ∨
      (asyncRegwrites o ps s).First ∧ (asyncRegwrites o ps s).regs ≠ [] := by
  induction ps generalizing s with
  | nil => exact .inr ⟨h, hregs.resolve_right fun hne => hne rfl⟩
  | cons p ps ih =>
      unfold asyncRegwrites
      split_ifs
      · exact h.regwrite p hbuffer
      · rcases h.regwrite p hbuffer with hleak | ⟨hfirst, hkept⟩
        · exact .inl (hleak.regwrites ps)
        · exact ih hfirst (.inl hkept)

/-- What leaks is not freed in the end. -/
theorem AsyncBatch.Leaking.free {s : AsyncBatch} (h : s.Leaking o) :
    ∃ b < s.free.asked, o.buffer b = true ∧ s.free.freed.count b = 0 := by
  obtain ⟨hfreed, b, hlt, hbuffer, hcmd⟩ := h
  refine ⟨b, hlt, hbuffer, List.count_eq_zero.mpr fun hmem => hcmd ?_⟩
  rw [AsyncBatch.free, hfreed, List.nil_append] at hmem
  exact Option.mem_toList.mp hmem

theorem AsyncBatch.Leaking.finish {s t : AsyncBatch} {n : Nat} (h : s.Leaking o)
    (ht : asyncRegwriteFinish o n s = some t) :
    ∃ b < t.asked, o.buffer b = true ∧ t.freed.count b = 0 := by
  induction n generalizing s with
  | zero => cases ht
  | succ n ih =>
      unfold asyncRegwriteFinish at ht
      split_ifs at ht
      · exact ih h.flush ht
      · obtain rfl := Option.some.inj ht
        exact h.flush.free
      · obtain rfl := Option.some.inj ht
        exact h.free

theorem AsyncBatch.First.finish {s t : AsyncBatch} {n : Nat} (h : s.First) (hregs : s.regs ≠ [])
    (hbuffer : o.buffer 0 = true) (ht : asyncRegwriteFinish o n s = some t) :
    ∃ b < t.asked, o.buffer b = true ∧ t.freed.count b = 0 := by
  induction n generalizing s with
  | zero => cases ht
  | succ n ih =>
      have hcmd : s.cmd ≠ none := fun hnone => Option.some_ne_none 0 (h.cmd.symm.trans hnone)
      unfold asyncRegwriteFinish at ht
      rw [if_pos ⟨hcmd, h.err⟩] at ht
      rcases h.flush hregs hbuffer with ⟨hleak, hstay⟩ | ⟨hfirst, hkept, hjump⟩
      · rw [hstay, if_neg Bool.false_ne_true] at ht
        obtain rfl := Option.some.inj ht
        exact hleak.free
      · rw [if_pos hjump] at ht
        exact ih hfirst hkept ht

/-- With a buffer and a pair to write, a buffer is never freed. -/
theorem not_conforms_of_buffer {ps : List Pair} (hbuffer : o.buffer 0 = true) (hps : ps ≠ []) :
    ¬Conforms o ps .async := by
  rintro ⟨n, t, ht, -, hcount⟩
  have hbegin : asyncRegwriteBegin o = (⟨⟨0, [], [], 0⟩, some 0, 1, []⟩, false) := if_pos hbuffer
  rw [asyncRegwriteRun, hbegin, if_neg Bool.false_ne_true] at ht
  have hfirst : AsyncBatch.First ⟨⟨0, [], [], 0⟩, some 0, 1, []⟩ := ⟨rfl, rfl, rfl, rfl⟩
  have hleak : ∃ b < t.asked, o.buffer b = true ∧ t.freed.count b = 0 := by
    rcases hfirst.regwrites ps hbuffer (.inr hps) with hleaking | ⟨hkept, hregs⟩
    · exact hleaking.finish ht
    · exact hkept.finish hregs hbuffer ht
  obtain ⟨b, hlt, hhad, hzero⟩ := hleak
  have hone := hcount b
  rw [if_pos ⟨hlt, hhad⟩, hzero] at hone
  cases hone

theorem conforms_async_iff (ps : List Pair) : Conforms o ps .async ↔ Holds o ps .async := by
  unfold Holds
  cases hbuffer : o.buffer 0 with
  | true =>
      by_cases hps : ps = []
      · subst hps
        refine iff_of_true ⟨1, ⟨⟨0, [], [], 0⟩, some 0, 1, [0]⟩, ?_, ?_, fun b => ?_⟩ (by simp)
        · have hbegin : asyncRegwriteBegin o = (⟨⟨0, [], [], 0⟩, some 0, 1, []⟩, false) :=
            if_pos hbuffer
          rw [asyncRegwriteRun, hbegin]
          rfl
        · exact ⟨List.prefix_rfl, List.forall_mem_nil _, iff_of_true rfl rfl⟩
        · cases b with
          | zero => simp [hbuffer]
          | succ b => simp
      · exact iff_of_false (not_conforms_of_buffer hbuffer hps) (by simp [hps])
  | false =>
      have hbegin : asyncRegwriteBegin o = (⟨⟨0, [], [], -enomem⟩, none, 1, []⟩, true) :=
        if_neg (by simp [hbuffer])
      have hfinish (n : Nat) : asyncRegwriteRun o (n + 1) ps =
          some ⟨⟨0, [], [], -enomem⟩, none, 1, []⟩ := by
        rw [asyncRegwriteRun, hbegin]
        rfl
      have hend : (¬ps = []) ↔ (false = true ↔ ps = []) := by simp
      rw [← hend]
      constructor
      · rintro ⟨n, t, ht, hsound, -⟩ rfl
        cases n with
        | zero => cases ht
        | succ n =>
            rw [hfinish] at ht
            obtain rfl := Option.some.inj ht
            exact absurd (hsound.result.mpr rfl) (by decide)
      · intro hps
        refine ⟨1, _, hfinish 0, ⟨List.nil_prefix, List.forall_mem_nil _, ?_⟩, fun b => ?_⟩
        · exact iff_of_false (by decide) fun heq => hps heq.symm
        · cases b with
          | zero => simp [hbuffer]
          | succ b => simp

/-- The register `AR9170_MAC_REG_BCN_HT1`, and nothing that fails but what the tests say. -/
def oneWrite : List Pair := [(0x1c3dac, 1)]

end Calipso.Ar9170.Wreg
