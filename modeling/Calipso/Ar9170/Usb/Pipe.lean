import Calipso.Ar9170.Usb.Actions
import Calipso.Ar9170.Usb.Ordered

/-!
# One pipe among the interrupts

The invariant and the interference for one OUT endpoint, and the rules for the
actions of the main loop on it. `J` is what holds of the pipe between two calls;
it holds as well while `ar9170_exec_cmd` waits.
-/

namespace Calipso.Ar9170.Usb

open Interrupt OutPipe

/-- The pipe keeps its order and the interrupts are calm. -/
def pipeRely (e : Endpoint) (J : OutPipe → Prop) : Rely State where
  inv s := (s.pipe e).Ordered s.brk ∧ (s.waiting.isSome = true → J (s.pipe e))
  rel s t := Calm (s.pipe e) (t.pipe e) ∧ t.brk = s.brk ∧ t.waiting = s.waiting
  refl _ := ⟨Calm.refl _, rfl, rfl⟩
  trans h h' := ⟨h.1.trans h'.1, h'.2.1.trans h.2.1, h'.2.2.trans h.2.2⟩

/-- No call waits, and `P` holds of the pipe. -/
def At (e : Endpoint) (P : Nat → OutPipe → Prop) (s : State) : Prop :=
  s.waiting = none ∧ P s.brk (s.pipe e)

/-- `P` survives the interrupts. -/
def CalmStable (P : Nat → OutPipe → Prop) : Prop :=
  ∀ brk p q, P brk p → Calm p q → P brk q

/-- The callbacks of the endpoint find a transfer that ended well and a main
loop that does not rely on the list. -/
def completesWell (e : Endpoint) : Irq → State → Prop
  | .intOutDone status, s => e = .intOut → status = .noError ∧ s.cmd.held = false
  | .bulkOutDone status, s => e = .bulkOut → status = .noError ∧ s.tx.held = false
  | .response _, _ => True

instance (e : Endpoint) (i : Irq) (s : State) : Decidable (completesWell e i s) :=
  match i with
  | .intOutDone status =>
      inferInstanceAs (Decidable (e = .intOut → status = .noError ∧ s.cmd.held = false))
  | .bulkOutDone status =>
      inferInstanceAs (Decidable (e = .bulkOut → status = .noError ∧ s.tx.held = false))
  | .response _ => .isTrue trivial

variable {e : Endpoint} {J : OutPipe → Prop} {P K : Nat → OutPipe → Prop} {s t : State}

theorem At.stable (hP : CalmStable P) (hs : At e P s) (h : (pipeRely e J).rel s t) :
    At e P t := by
  refine ⟨h.2.2.trans hs.1, ?_⟩
  rw [h.2.1]
  exact hP _ _ _ hs.2 h.1

/-! ### Interrupts -/

theorem clearAtSecondTbtt_calm (p : OutPipe) : Calm p p.clearAtSecondTbtt := by
  unfold OutPipe.clearAtSecondTbtt
  split
  · split
    · exact .of_unlock rfl rfl rfl rfl fun h => by cases h
    · exact .of_unlock rfl rfl rfl rfl id
  · exact .refl p

theorem clearAtSecondTbtt_ledger (p : OutPipe) : p.clearAtSecondTbtt.ledger = p.ledger := by
  unfold OutPipe.clearAtSecondTbtt
  split
  · split <;> rfl
  · rfl

/-- A response changes the locks of a pipe at most. -/
theorem handleCommandResponse_pipe (r : Rsp) (s : State) (e : Endpoint) :
    Calm (s.pipe e) ((handleCommandResponse r s).pipe e) ∧
      ((handleCommandResponse r s).pipe e).ledger = (s.pipe e).ledger ∧
      (handleCommandResponse r s).brk = s.brk ∧
      (handleCommandResponse r s).waiting = s.waiting := by
  have same {t : State} (hcmd : t.cmd = s.cmd) (htx : t.tx = s.tx) (hbrk : t.brk = s.brk)
      (hwaiting : t.waiting = s.waiting) :
      Calm (s.pipe e) (t.pipe e) ∧ (t.pipe e).ledger = (s.pipe e).ledger ∧
        t.brk = s.brk ∧ t.waiting = s.waiting := by
    have hpipe : t.pipe e = s.pipe e := by cases e <;> assumption
    rw [hpipe]
    exact ⟨.refl _, rfl, hbrk, hwaiting⟩
  unfold handleCommandResponse
  cases hseq : checkSequence r.seq s with
  | none => exact same rfl rfl rfl rfl
  | some t =>
      obtain ⟨hcmd, htx, hbrk, hwaiting⟩ :
          t.cmd = s.cmd ∧ t.tx = s.tx ∧ t.brk = s.brk ∧ t.waiting = s.waiting := by
        unfold checkSequence at hseq
        split at hseq
        · cases hseq
          exact ⟨rfl, rfl, rfl, rfl⟩
        · simp only [Option.ite_none_right_eq_some, Option.some.injEq] at hseq
          rw [← hseq.2]
          exact ⟨rfl, rfl, rfl, rfl⟩
      have hpipe : t.pipe e = s.pipe e := by cases e <;> assumption
      simp only
      split
      · split
        · unfold cmdCallback
          simp only
          split
          · exact same hcmd htx hbrk hwaiting
          · split <;> exact same hcmd htx hbrk hwaiting
        · exact same hcmd htx hbrk hwaiting
      · split
        · exact same hcmd htx hbrk hwaiting
        · split
          · have hclear : (handlePreTbtt t).pipe e = (s.pipe e).clearAtSecondTbtt := by
              rw [← hpipe]
              cases e <;> rfl
            rw [hclear]
            exact ⟨clearAtSecondTbtt_calm _, clearAtSecondTbtt_ledger _, hbrk, hwaiting⟩
          · split
            · unfold handleTxComp
              have unlocked {p : OutPipe} (h : p = { (s.pipe e).completeAsync with
                  clearAsyncLockAtNextTbtt := false }) :
                  Calm (s.pipe e) p ∧ p.ledger = (s.pipe e).ledger := by
                rw [h]
                exact ⟨.of_unlock rfl rfl rfl rfl (fun h => by cases h), rfl⟩
              split
              · simp only
                cases e with
                | intOut =>
                    split
                    · obtain ⟨hcalm, hledger⟩ := unlocked (by rw [← hpipe])
                      exact ⟨hcalm, hledger, hbrk, hwaiting⟩
                    · exact ⟨by rw [← hpipe]; exact .refl _, by rw [← hpipe]; rfl, hbrk,
                        hwaiting⟩
                | bulkOut =>
                    obtain ⟨hcalm, hledger⟩ := unlocked (by rw [← hpipe])
                    split <;> exact ⟨hcalm, hledger, hbrk, hwaiting⟩
              · exact same hcmd htx hbrk hwaiting
            · exact same hcmd htx hbrk hwaiting

/-- The two callbacks do the same in another order. -/
theorem freeHead_completeAsync (p : OutPipe) :
    p.completeAsync.freeHead = p.freeHead.completeAsync := by
  obtain ⟨list⟩ := p
  cases list with
  | nil => rfl
  | cons n rest =>
      obtain ⟨a, c⟩ := n
      cases c <;> rfl

/-- The callback of a transfer that ended without an error. -/
theorem complete_calm {p q : OutPipe} {brk : Nat} (h : p.Ordered brk)
    (ht : p.transfer.isSome = true) (hheld : p.held = false)
    (hq : q = (p.endTransfer .noError).freeHead.completeAsync ∨
      q = (p.endTransfer .noError).completeAsync.freeHead) :
    Calm p q ∧ q.Ordered brk := by
  rw [freeHead_completeAsync, or_self] at hq
  subst hq
  obtain ⟨haccepted, hsubmitted, hout, hheld', hbuf, -, -⟩ :=
    freeHead_fields (p.endTransfer .noError)
  exact ⟨.of_complete ht hheld haccepted hsubmitted hout hheld' hbuf rfl
    (freeHead_length (p.endTransfer .noError)), (h.complete ht).frame (Nat.le_refl _) rfl⟩

/-- The interrupts keep the invariant and stay inside the interference. -/
theorem irq_pipe (hJ : ∀ p q, J p → Calm p q → J q) {i : Irq} {s' : State}
    (hs : (pipeRely e J).inv s) (hi : completesWell e i s) (h : irq i s = some s') :
    (pipeRely e J).inv s' ∧ (pipeRely e J).rel s s' := by
  obtain ⟨hordered, hwait⟩ := hs
  have close (hcalm : Calm (s.pipe e) (s'.pipe e)) (hs' : (s'.pipe e).Ordered s.brk)
      (hbrk : s'.brk = s.brk) (hwaiting : s'.waiting = s.waiting) :
      (pipeRely e J).inv s' ∧ (pipeRely e J).rel s s' := by
    refine ⟨⟨by rw [hbrk]; exact hs', fun hw => ?_⟩, hcalm, hbrk, hwaiting⟩
    rw [hwaiting] at hw
    exact hJ _ _ (hwait hw) hcalm
  cases i with
  | intOutDone status =>
      simp only [irq, Option.ite_none_right_eq_some, Option.some.injEq] at h
      obtain ⟨ht, rfl⟩ := h
      cases e with
      | bulkOut => exact close (.refl _) hordered rfl rfl
      | intOut =>
          obtain ⟨rfl, hheld⟩ := hi rfl
          obtain ⟨hcalm, hs'⟩ := complete_calm hordered ht hheld (.inl rfl)
          exact close hcalm hs' rfl rfl
  | bulkOutDone status =>
      simp only [irq, Option.ite_none_right_eq_some, Option.some.injEq] at h
      obtain ⟨ht, rfl⟩ := h
      cases e with
      | intOut => exact close (.refl _) hordered rfl rfl
      | bulkOut =>
          obtain ⟨rfl, hheld⟩ := hi rfl
          obtain ⟨hcalm, hs'⟩ := complete_calm hordered ht hheld (.inr rfl)
          exact close hcalm hs' rfl rfl
  | response r =>
      simp only [irq, Option.ite_none_right_eq_some, Option.some.injEq] at h
      obtain ⟨-, rfl⟩ := h
      obtain ⟨hcalm, hledger, hbrk, hwaiting⟩ := handleCommandResponse_pipe r s e
      exact close hcalm (hordered.frame (Nat.le_refl _) hledger) hbrk hwaiting

/-! ### Actions of the main loop -/

/-- An action on the pipe takes `P` to `K`. -/
theorem sat_on {f : OutPipe → OutPipe} (hP : CalmStable P) (hK : CalmStable K)
    (hf : ∀ brk p, P brk p → p.Ordered brk → (f p).Ordered brk ∧ K brk (f p))
    (hs : At e P s) :
    Sat (pipeRely e J) (Prog.modify (·.on e f)) (fun _ t => At e K t) s := by
  refine Sat.modify fun t hst ht => ?_
  obtain ⟨hw, hPt⟩ := hs.stable hP hst
  obtain ⟨hordered, hKt⟩ := hf t.brk (t.pipe e) hPt ht.1
  have hat : At e K (t.on e f) := by
    refine ⟨?_, ?_⟩
    · cases e <;> exact hw
    · rw [State.pipe_on, State.brk_on]
      exact hKt
  refine ⟨⟨?_, fun hsome => ?_⟩, fun u htu _ => hat.stable hK htu⟩
  · rw [State.pipe_on, State.brk_on]
    exact hordered
  · rw [hat.1] at hsome
    cases hsome

/-- An action on the pipe that returns what it has found there. -/
theorem sat_atomically_on {α : Type} {g : OutPipe → α} {f : OutPipe → OutPipe}
    {Q : α → Nat → OutPipe → Prop} (hP : CalmStable P) (hQ : ∀ a, CalmStable (Q a))
    (hf : ∀ brk p, P brk p → p.Ordered brk → (f p).Ordered brk ∧ Q (g p) brk (f p))
    (hs : At e P s) :
    Sat (pipeRely e J) (Prog.atomically (fun s => g (s.pipe e)) (·.on e f))
      (fun a t => At e (Q a) t) s := by
  intro t hst ht
  obtain ⟨hw, hPt⟩ := hs.stable hP hst
  obtain ⟨hordered, hQt⟩ := hf t.brk (t.pipe e) hPt ht.1
  have hat : At e (Q (g (t.pipe e))) (t.on e f) := by
    refine ⟨?_, ?_⟩
    · cases e <;> exact hw
    · rw [State.pipe_on, State.brk_on]
      exact hQt
  refine ⟨⟨?_, fun hsome => ?_⟩, fun u htu _ => hat.stable (hQ _) htu⟩
  · rw [State.pipe_on, State.brk_on]
    exact hordered
  · rw [hat.1] at hsome
    cases hsome

/-- The action leaves the pipe alone. -/
def Elsewhere (e : Endpoint) (f : State → State) : Prop :=
  ∀ s, (f s).pipe e = s.pipe e ∧ s.brk ≤ (f s).brk ∧ (f s).waiting = s.waiting

/-- Code that works elsewhere. -/
theorem sat_elsewhere {α : Type} {p : Prog State α} (hp : Acts (Elsewhere e) p)
    (hP : CalmStable P) (hbrk : ∀ brk brk' q, brk ≤ brk' → P brk q → P brk' q)
    (hs : At e P s) : Sat (pipeRely e J) p (fun _ t => At e P t) s := by
  refine hp.sat (fun f t hf ht hat => ?_) (fun _ _ hat h => hat.stable hP h) hs
  obtain ⟨hpipe, hle, hwaiting⟩ := hf t
  refine ⟨⟨?_, fun hw => ?_⟩, hwaiting.trans hat.1, ?_⟩
  · rw [hpipe]
    exact ht.1.frame hle rfl
  · rw [hwaiting, hat.1] at hw
    cases hw
  · rw [hpipe]
    exact hbrk _ _ _ hle hat.2

theorem Elsewhere.of_eq {f : State → State} (hcmd : ∀ s, (f s).cmd = s.cmd)
    (htx : ∀ s, (f s).tx = s.tx) (hbrk : ∀ s, s.brk ≤ (f s).brk)
    (hw : ∀ s, (f s).waiting = s.waiting) : Elsewhere e f := by
  intro s
  refine ⟨?_, hbrk s, hw s⟩
  cases e
  · exact hcmd s
  · exact htx s

theorem Elsewhere.refl (e : Endpoint) : Elsewhere e id :=
  fun _ => ⟨rfl, Nat.le_refl _, rfl⟩

theorem Elsewhere.on_of_ne {e e' : Endpoint} (h : e ≠ e') (f : OutPipe → OutPipe) :
    Elsewhere e (·.on e' f) := by
  intro s
  refine ⟨State.pipe_on_of_ne h f, ?_, ?_⟩
  · exact Nat.le_of_eq (State.brk_on s e' f).symm
  · cases e' <;> rfl

theorem Elsewhere.pipeActs {e e' : Endpoint} (h : e ≠ e') : PipeActs e' (Elsewhere e) where
  read := .refl e
  alloc := .of_eq (fun _ => rfl) (fun _ => rfl) (fun _ => Nat.le_succ _) fun _ => rfl
  startAsync := .on_of_ne h _
  completeAsync := .on_of_ne h _
  startBuf := .on_of_ne h _
  completeBuf := .on_of_ne h _
  hold := .on_of_ne h _
  release := .on_of_ne h _
  abort := .on_of_ne h _
  useFreed := .on_of_ne h _
  storeHead _ := .on_of_ne h _
  link pos c := by
    intro s
    obtain ⟨hpipe, -, hw⟩ := Elsewhere.on_of_ne h (.link pos s.brk c) s
    refine ⟨?_, Nat.le_succ _, hw⟩
    rw [← hpipe]
    cases e <;> rfl
  copyOut _ := .on_of_ne h _
  uhdEpRun _ := .on_of_ne h _

theorem acts_openSlot (e : Endpoint) (out : Option Nat) (outlen : Nat) :
    Acts (Elsewhere e) (openSlot out outlen) := by
  have step (f : State → State) (hcmd : ∀ s, (f s).cmd = s.cmd) (htx : ∀ s, (f s).tx = s.tx)
      (hbrk : ∀ s, s.brk ≤ (f s).brk) (hw : ∀ s, (f s).waiting = s.waiting) :
      Acts (Elsewhere e) (Prog.modify f) :=
    Acts.modify (.of_eq hcmd htx hbrk hw)
  have hrefl (s : State) : s.brk ≤ s.brk := Nat.le_refl _
  apply (step _ (fun _ => rfl) (fun _ => rfl) hrefl fun _ => rfl).bind
  intro _
  apply (step _ (fun _ => rfl) (fun _ => rfl) hrefl fun _ => rfl).bind
  intro _
  apply (step _ (fun _ => rfl) (fun _ => rfl) hrefl fun _ => rfl).bind
  intro _
  apply (step _ (fun _ => rfl) (fun _ => rfl) hrefl fun _ => rfl).bind
  intro _
  exact step _ (fun _ => rfl) (fun _ => rfl) hrefl fun _ => rfl

/-- `ar9170_exec_cmd` keeps what the submission of its command keeps. -/
theorem sat_execCmd {cmd : UInt8} {plen outlen : Nat} {out : Option Nat} {env : Env}
    (hJ : ∀ p q, J p → Calm p q → J q) (hP : CalmStable fun _ => P 0)
    (hsubmit : ∀ t, (pipeRely e J).inv t → At e (fun _ => P 0) t →
      Sat (pipeRely e J) (submitCmd (plen % 256) (some (out, outlen)) env)
        (fun _ u => At e (fun _ => J) u) t)
    (hinv : (pipeRely e J).inv s) (hs : At e (fun _ => P 0) s) :
    Sat (pipeRely e J) (execCmd cmd plen out outlen env)
      (fun _ t => At e (fun _ => J) t) s := by
  have hJstable : CalmStable fun _ => J := fun _ p q => hJ p q
  unfold execCmd
  have hslot := sat_elsewhere (J := J) (acts_openSlot e out outlen) hP (fun _ _ _ _ h => h) hs
  apply hslot.seq hinv
  intro _ s₁ hinv₁ hs₁
  apply (hsubmit s₁ hinv₁ hs₁).seq hinv₁
  intro result s₂ _ hs₂
  split
  · have hf : Elsewhere e fun s => { s with cmdWait := false } :=
      .of_eq (fun _ => rfl) (fun _ => rfl) (fun _ => Nat.le_refl _) fun _ => rfl
    exact sat_elsewhere (Acts.atomically hf) hJstable (fun _ _ _ _ h => h) hs₂
  · refine Sat.modify_bind fun t hst ht => ?_
    have hJt : J (t.pipe e) := (hs₂.stable hJstable hst).2
    have hpipe : ({ t with waiting := some result } : State).pipe e = t.pipe e := by
      cases e <;> rfl
    refine ⟨⟨by rw [hpipe]; exact ht.1, fun _ => by rw [hpipe]; exact hJt⟩, ?_⟩
    -- the interrupts do not touch `waiting`, so the invariant gives `J` after the wait
    intro u htu _ _ v huv hv
    have hv' : v.waiting = some result := huv.2.2.trans htu.2.2
    have hJv : J (v.pipe e) := hv.2 (by rw [hv']; rfl)
    have hpipe' : ({ v with waiting := none } : State).pipe e = v.pipe e := by
      cases e <;> rfl
    have hat : At e (fun _ => J) { v with waiting := none } := ⟨rfl, by rw [hpipe']; exact hJv⟩
    exact ⟨⟨by rw [hpipe']; exact hv.1, fun h => by cases h⟩,
      fun w hvw _ => hat.stable hJstable hvw⟩

/-- What holds of every state and what holds between two calls. -/
theorem pipe_of_run {G : Guard State Irq Call} (hJ : ∀ p q, J p → Calm p q → J q)
    (hirq : ∀ i s, G.irq i s → completesWell e i s)
    (hcall : ∀ k s, (pipeRely e J).inv s → At e (fun _ => J) s → G.call k s →
      Sat (pipeRely e J) (body k) (fun _ t => At e (fun _ => J) t) s)
    {cmdBufs : Nat} (hinit : J ((State.init cmdBufs).pipe e)) {ls : List (Label Irq Call)}
    {c : Config State} (h : machine.Run G (.idle (.init cmdBufs)) ls c) :
    (c.state.pipe e).Ordered c.state.brk ∧
      (c.rest = .ret () ∨ c.state.waiting.isSome = true → J (c.state.pipe e)) := by
  have hinv : (pipeRely e J).inv (State.init cmdBufs) := by
    refine ⟨?_, fun h => by cases h⟩
    cases e
    · exact ordered_init (by decide : 0 < 2)
    · exact ordered_init (by decide : 1 < 2)
  have hstart : At e (fun _ => J) (State.init cmdBufs) := ⟨rfl, hinit⟩
  have hstable : ∀ s t, At e (fun _ => J) s → (pipeRely e J).rel s t → At e (fun _ => J) t :=
    fun _ _ hs hst => hs.stable (fun _ p q => hJ p q) hst
  have hsound := Machine.Run.sound (r := pipeRely e J) (Q := At e fun _ => J)
    (fun i s s' hs hG hi => irq_pipe hJ hs (hirq i s hG) hi) hcall
    (c := Config.idle (State.init cmdBufs)) hinv
    (fun t hst _ => hstable _ t hstart hst) h
  refine ⟨hsound.1.1, fun hc => ?_⟩
  rcases hc with hrest | hwaiting
  · have hsat := hsound.2
    rw [hrest] at hsat
    exact (hsat c.state ((pipeRely e J).refl _) hsound.1).2
  · exact hsound.1.2 hwaiting

end Calipso.Ar9170.Usb
