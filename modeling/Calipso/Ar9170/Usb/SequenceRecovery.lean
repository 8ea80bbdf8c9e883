import Calipso.Ar9170.Usb.Actions
import Mathlib.Data.Int.ModEq

/-!
# Recovery from lost responses

The device numbers its responses modulo `fw.cmd_bufs`, and `ar9170_check_sequence`
counts those it has accepted. The counter stays where it is when the numbers
disagree, so after a loss the responses are rejected until the stream has come
round to the number that is still expected.
-/

namespace Calipso.Ar9170.Usb

open Interrupt

/-- The response gets past the check of its sequence number. -/
def Rsp.actedUpon (r : Rsp) (s : State) : Bool := (checkSequence r.seq s).isSome

/-- Every response among the steps is acted upon when it arrives. -/
def allActedUpon : Config State → List (Label Irq Call) → Prop
  | _, [] => True
  | c, l :: ls =>
      (∀ r, l = .irq (.response r) → r.actedUpon c.state = true) ∧
        ∀ c', machine.step c l = some c' → allActedUpon c' ls

/-- The responses among the steps, in order. -/
def arrivals (ls : List (Label Irq Call)) : List Rsp :=
  ls.filterMap fun l => match l with
    | .irq (.response r) => some r
    | _ => none

/-- The responses at the positions `pos` of a stream that is numbered from
`first` on, modulo `n`; the ones in between are lost. -/
structure Arrive (n first : Nat) (pos : List Nat) (rs : List Rsp) : Prop where
  sorted : pos.Pairwise (· < ·)
  seq : rs.map (·.seq) = pos.map fun p => (first + p) % n

/-- The responses lost between the positions `p` and `q` are a multiple of `n`. -/
def GapDivides (n p q : Nat) : Prop := n ∣ q - (p + 1)

/-- The counter after the response at position `prev`. -/
def counter (n first : Nat) : Option Nat → Int
  | none => -1
  | some p => ((first + (p + 1)) % n : Nat)

/-- The driver waits for the number after that of the response at `prev`. -/
def Expects (n first : Nat) (prev : Option Nat) (s : State) : Prop :=
  s.cmdBufs = n ∧ s.cmdSeq = counter n first prev

variable {n first : Nat} {s t : State} {r : Rsp}

/-! ### The counter and the main loop -/

/-- The action leaves the counter alone. -/
def KeepsSeq (f : State → State) : Prop :=
  ∀ s, (f s).cmdSeq = s.cmdSeq ∧ (f s).cmdBufs = s.cmdBufs

theorem KeepsSeq.on (e : Endpoint) (f : OutPipe → OutPipe) : KeepsSeq (·.on e f) := by
  intro s
  cases e <;> exact ⟨rfl, rfl⟩

theorem keepsSeq_pipeActs (e : Endpoint) : PipeActs e KeepsSeq where
  read _ := ⟨rfl, rfl⟩
  alloc _ := ⟨rfl, rfl⟩
  startAsync := .on e _
  completeAsync := .on e _
  startBuf := .on e _
  completeBuf := .on e _
  hold := .on e _
  release := .on e _
  abort := .on e _
  useFreed := .on e _
  storeHead _ := .on e _
  link pos c s := by cases e <;> exact ⟨rfl, rfl⟩
  copyOut _ := .on e _
  uhdEpRun _ := .on e _

theorem keepsSeq_execCmd (cmd : UInt8) (plen : Nat) (out : Option Nat) (outlen : Nat)
    (env : Env) : Acts KeepsSeq (execCmd cmd plen out outlen env) := by
  have write (f : State → State) (h : KeepsSeq f) : Acts KeepsSeq (Prog.modify f) :=
    Acts.modify h
  have hopen : Acts KeepsSeq (openSlot out outlen) := by
    apply (write _ fun _ => ⟨rfl, rfl⟩).bind
    intro _
    apply (write _ fun _ => ⟨rfl, rfl⟩).bind
    intro _
    apply (write _ fun _ => ⟨rfl, rfl⟩).bind
    intro _
    apply (write _ fun _ => ⟨rfl, rfl⟩).bind
    intro _
    exact write _ fun _ => ⟨rfl, rfl⟩
  unfold execCmd
  apply hopen.bind
  intro _
  have hsubmit := (keepsSeq_pipeActs .intOut).submitCmd (plen % 256) (some (out, outlen)) env
    fun _ _ _ _ => ⟨rfl, rfl⟩
  apply hsubmit.bind
  intro result
  split
  · exact Acts.atomically fun _ => ⟨rfl, rfl⟩
  · apply (write _ fun _ => ⟨rfl, rfl⟩).bind
    intro _
    apply Acts.await.bind
    intro _
    exact Acts.atomically fun _ => ⟨rfl, rfl⟩

theorem keepsSeq_body (k : Call) : Acts KeepsSeq (body k) := by
  cases k with
  | exec cmd plen out outlen env =>
      exact (keepsSeq_execCmd cmd plen out outlen env).bind fun _ => Acts.ret _
  | submit len env =>
      apply ((keepsSeq_pipeActs .intOut).submitCmd len none env fun _ _ h => by cases h).bind
      exact fun _ => Acts.ret _
  | flush accepts => exact (keepsSeq_pipeActs .intOut).schAsyncCmdCheck accepts
  | tx len started hasData env =>
      exact (keepsSeq_pipeActs .bulkOut).usbTx len started hasData env

/-! ### The counter and the interrupts -/

theorem cmdCallback_seq (len answers : Nat) (s : State) :
    (cmdCallback len answers s).cmdSeq = s.cmdSeq ∧
      (cmdCallback len answers s).cmdBufs = s.cmdBufs := by
  unfold cmdCallback
  dsimp only
  split
  · exact ⟨rfl, rfl⟩
  · split <;> exact ⟨rfl, rfl⟩

theorem handleTxComp_seq (s : State) :
    (handleTxComp s).cmdSeq = s.cmdSeq ∧ (handleTxComp s).cmdBufs = s.cmdBufs := by
  unfold handleTxComp
  dsimp only
  split
  · split <;> exact ⟨rfl, rfl⟩
  · exact ⟨rfl, rfl⟩

/-- What a response does to the counter is what the check does to it. -/
theorem handleCommandResponse_seq (h : checkSequence r.seq s = some t) :
    (handleCommandResponse r s).cmdSeq = t.cmdSeq ∧
      (handleCommandResponse r s).cmdBufs = t.cmdBufs := by
  unfold handleCommandResponse
  rw [h]
  dsimp only
  split
  · split
    · exact cmdCallback_seq _ _ t
    · exact ⟨rfl, rfl⟩
  · split
    · exact ⟨rfl, rfl⟩
    · split
      · exact ⟨rfl, rfl⟩
      · split
        · exact handleTxComp_seq t
        · exact ⟨rfl, rfl⟩

theorem neg_one_le_counter (n first : Nat) (prev : Option Nat) :
    -1 ≤ counter n first prev := by
  cases prev with
  | none => exact Int.le_refl _
  | some p =>
      have h : (0 : Int) ≤ counter n first (some p) := Int.natCast_nonneg _
      omega

/-- The check against a number the driver waits for. -/
theorem Expects.checkSequence {prev : Option Nat} (h : Expects n first prev s) (seq : Nat) :
    checkSequence seq s =
      if prev = none ∨ (seq : Int) = counter n first prev then
        some { s with cmdSeq := ((seq + 1) % n : Nat) }
      else none := by
  obtain ⟨hbufs, hseq⟩ := h
  have hle : ¬ counter n first prev < -1 := by
    have := neg_one_le_counter n first prev
    omega
  simp only [Usb.checkSequence, hseq, hbufs, if_neg hle]
  cases prev with
  | none => simp [counter]
  | some p =>
      have hneg : ¬ counter n first (some p) < 0 := by
        simp only [counter]
        omega
      simp only [if_neg hneg, reduceCtorEq, false_or]
      by_cases heq : (seq : Int) = counter n first (some p)
      · simp [← heq]
      · simp [heq]

/-- The response at `p` is accepted exactly when the loss since the response at
`prev` is a multiple of `n`. -/
theorem Expects.actedUpon_iff {prev : Option Nat} {p : Nat} (h : Expects n first prev s)
    (hprev : ∀ q, prev = some q → q < p) (hr : r.seq = (first + p) % n) :
    r.actedUpon s = true ↔ ∀ q, prev = some q → GapDivides n q p := by
  rw [Rsp.actedUpon, h.checkSequence, hr]
  cases prev with
  | none => simp
  | some q =>
      have hq : first + (q + 1) ≤ first + p := by
        have := hprev q rfl
        omega
      have hsub : first + p - (first + (q + 1)) = p - (q + 1) := by omega
      have hgap := Nat.modEq_iff_dvd' (n := n) hq
      rw [hsub, Nat.ModEq] at hgap
      have hcast : (((first + p) % n : Nat) : Int) = counter n first (some q) ↔
          (first + (q + 1)) % n = (first + p) % n := by
        simp only [counter]
        omega
      simp only [reduceCtorEq, false_or, Option.some.injEq, forall_eq', GapDivides, hcast]
      rw [← hgap]
      by_cases heq : (first + (q + 1)) % n = (first + p) % n
      · simp [heq]
      · simp [heq]

/-- After an accepted response the counter expects the next number. -/
theorem Expects.check {prev : Option Nat} {p : Nat} (h : Expects n first prev s)
    (hr : r.seq = (first + p) % n) (hacted : r.actedUpon s = true) :
    Expects n first (some p) (handleCommandResponse r s) := by
  obtain ⟨t, ht⟩ := Option.isSome_iff_exists.mp hacted
  obtain ⟨hseq, hbufs⟩ := handleCommandResponse_seq ht
  rw [h.checkSequence, Option.ite_none_right_eq_some, Option.some.injEq] at ht
  rw [Expects, hseq, hbufs, ← ht.2]
  refine ⟨h.1, ?_⟩
  have hnext : (r.seq + 1) % n = (first + (p + 1)) % n := by
    rw [hr, Nat.mod_add_mod, Nat.add_assoc]
  simp only [counter, hnext]

/-- The interrupts of the endpoints leave the counter alone. -/
theorem Expects.irq {prev : Option Nat} {i : Irq} (h : Expects n first prev s)
    (hi : ∀ r, i ≠ .response r) (hstep : irq i s = some t) : Expects n first prev t := by
  have on (e : Endpoint) (f : OutPipe → OutPipe) (ht : s.on e f = t) :
      Expects n first prev t := by
    obtain ⟨hseq, hbufs⟩ := KeepsSeq.on e f s
    rw [Expects, ← ht, hseq, hbufs]
    exact h
  cases i with
  | intOutDone status =>
      simp only [Usb.irq, Option.ite_none_right_eq_some, Option.some.injEq] at hstep
      exact on _ _ hstep.2
  | bulkOutDone status =>
      simp only [Usb.irq, Option.ite_none_right_eq_some, Option.some.injEq] at hstep
      exact on _ _ hstep.2
  | response r => exact absurd rfl (hi r)

/-! ### Whole runs -/

/-- The counter expects the number after `prev`, whatever is left of the call. -/
def Counting (n first : Nat) (prev : Option Nat) (c : Config State) : Prop :=
  Expects n first prev c.state ∧ Acts KeepsSeq c.rest

/-- A step that brings no response. -/
theorem Counting.step {prev : Option Nat} {c c' : Config State} {l : Label Irq Call}
    (h : Counting n first prev c) (hl : ∀ r, l ≠ .irq (.response r))
    (hstep : machine.step c l = some c') : Counting n first prev c' := by
  obtain ⟨hexp, hacts⟩ := h
  obtain ⟨i, s', rfl, hi, rfl⟩ | ⟨f, k, rfl, hk, rfl⟩ | ⟨cond, p, rfl, hk, -, rfl⟩ |
    ⟨k, rfl, hk, rfl⟩ := Machine.step_cases hstep
  · exact ⟨hexp.irq (fun r hr => hl r (by rw [hr])) hi, hacts⟩
  · rw [hk] at hacts
    obtain ⟨hseq, hbufs⟩ := hacts.1 c.state
    refine ⟨?_, hacts.2 _⟩
    rw [Expects, hseq, hbufs]
    exact hexp
  · rw [hk] at hacts
    exact ⟨hexp, hacts⟩
  · exact ⟨hexp, keepsSeq_body k⟩

theorem Counting.allActedUpon_iff {prev : Option Nat} {pos : List Nat} {c d : Config State}
    {ls : List (Label Irq Call)} (hc : Counting n first prev c)
    (hexec : machine.exec c ls = some d)
    (hsorted : (prev.toList ++ pos).Pairwise (· < ·))
    (hseq : (arrivals ls).map (·.seq) = pos.map fun p => (first + p) % n) :
    allActedUpon c ls ↔ (prev.toList ++ pos).IsChain (GapDivides n) := by
  induction ls generalizing prev pos c with
  | nil =>
      have hpos : pos = [] := by simpa [arrivals] using hseq.symm
      subst hpos
      cases prev <;> simp [allActedUpon]
  | cons l ls ih =>
      rw [Machine.exec_cons, Option.bind_eq_some_iff] at hexec
      obtain ⟨c', hstep, hrest⟩ := hexec
      have hnext : allActedUpon c (l :: ls) ↔
          (∀ r, l = .irq (.response r) → r.actedUpon c.state = true) ∧ allActedUpon c' ls := by
        simp [allActedUpon, hstep]
      rw [hnext]
      by_cases hl : ∃ r, l = .irq (.response r)
      · obtain ⟨r, rfl⟩ := hl
        cases pos with
        | nil => simp [arrivals] at hseq
        | cons p pos =>
            simp only [arrivals, List.filterMap_cons, List.map_cons, List.cons.injEq] at hseq
            obtain ⟨hr, hseq⟩ := hseq
            have hlt : ∀ q, prev = some q → q < p := by
              intro q hq
              rw [hq] at hsorted
              exact (List.pairwise_cons.mp hsorted).1 p (by simp)
            have hsorted' : ((some p).toList ++ pos).Pairwise (· < ·) :=
              (List.pairwise_append.mp hsorted).2.1
            have hacted := hc.1.actedUpon_iff hlt hr
            have hchain : (prev.toList ++ p :: pos).IsChain (GapDivides n) ↔
                (∀ q, prev = some q → GapDivides n q p) ∧ (p :: pos).IsChain (GapDivides n) := by
              cases prev <;> simp
            have hfirst : (∀ r', (Label.irq (.response r) : Label Irq Call) =
                .irq (.response r') → r'.actedUpon c.state = true) ↔
                  r.actedUpon c.state = true := by
              constructor
              · intro h
                exact h r rfl
              · intro h r' hr'
                cases hr'
                exact h
            rw [hfirst, hchain, hacted]
            apply and_congr_right
            intro hgap
            have hc' : Counting n first (some p) c' := by
              have hresp := hc.1.check hr (hacted.mpr hgap)
              simp only [Machine.step, machine, Usb.irq, Option.map_eq_some_iff,
                Option.ite_none_right_eq_some, Option.some.injEq] at hstep
              obtain ⟨s', ⟨-, rfl⟩, rfl⟩ := hstep
              exact ⟨hresp, hc.2⟩
            exact ih hc' hrest hsorted' hseq
      · have hl' : ∀ r, l ≠ .irq (.response r) := fun r hr => hl ⟨r, hr⟩
        have hseq' : (arrivals ls).map (·.seq) = pos.map fun p => (first + p) % n := by
          rw [← hseq]
          rcases l with i | _ | k
          · cases i with
            | response r => exact absurd rfl (hl' r)
            | intOutDone status => rfl
            | bulkOutDone status => rfl
          · rfl
          · rfl
        rw [ih (hc.step hl' hstep) hrest hsorted hseq']
        constructor
        · exact fun h => h.2
        · exact fun h => ⟨fun r hr => absurd hr (hl' r), h⟩

/-- Whatever is lost of the stream: each response that arrives is acted upon
exactly when the number of responses lost before it is always a multiple of
`fw.cmd_bufs`. -/
theorem allActedUpon_iff_of_run {pos : List Nat} {ls : List (Label Irq Call)}
    {c : Config State} (h : machine.Run Guard.any (.idle (.init n)) ls c)
    (hstream : Arrive n first pos (arrivals ls)) :
    allActedUpon (.idle (.init n)) ls ↔ pos.IsChain (GapDivides n) := by
  have hc : Counting n first none (.idle (.init n)) := ⟨⟨rfl, rfl⟩, Acts.ret _⟩
  exact hc.allActedUpon_iff (Machine.exec_of_run h) hstream.sorted hstream.seq

/-- Three pre-TBTT responses; four responses are lost before the last one. -/
def fourLost : List (Label Irq Call) :=
  [.irq (.response ⟨3, rspPreTbtt, 0, 4, 0⟩), .irq (.response ⟨0, rspPreTbtt, 0, 4, 0⟩),
    .irq (.response ⟨1, rspPreTbtt, 0, 4, 0⟩)]

theorem allActedUpon_iff_of_run_fourLost :
    allActedUpon (.idle (.init 4)) fourLost ∧ arrivals fourLost ≠ [] := by
  obtain ⟨c, hrun, -⟩ := machine.exists_run_of_exec Guard.any (.idle (.init 4)) fourLost
    (fun _ => True) (by decide) (by decide)
  have hstream : Arrive 4 3 [0, 1, 6] (arrivals fourLost) := ⟨by decide, by decide⟩
  have hchain : [0, 1, 6].IsChain (GapDivides 4) := by simp [GapDivides]
  exact ⟨(allActedUpon_iff_of_run hrun hstream).mpr hchain, by decide⟩

/-- A TX status is lost, and the two responses that follow it arrive. -/
def oneLost : List (Label Irq Call) :=
  [.irq (.response ⟨0, rspPreTbtt, 0, 4, 0⟩), .irq (.response ⟨2, rspTxComp, 0, 4, 0⟩),
    .irq (.response ⟨3, rspPreTbtt, 0, 4, 0⟩)]

theorem not_allActedUpon_oneLost :
    (∃ c, machine.Run Guard.any (.idle (.init 4)) oneLost c ∧ c.state.cmdSeq = 1) ∧
      Arrive 4 0 [0, 2, 3] (arrivals oneLost) ∧
      ¬ allActedUpon (.idle (.init 4)) oneLost := by
  refine ⟨?_, ⟨by decide, by decide⟩, fun h => ?_⟩
  · exact machine.exists_run_of_exec Guard.any (.idle (.init 4)) oneLost
      (fun s => s.cmdSeq = 1) (by decide) (by decide)
  · have hsecond := (h.2 _ rfl).1 ⟨2, rspTxComp, 0, 4, 0⟩ rfl
    exact absurd hsecond (by decide)

end Calipso.Ar9170.Usb
