import Calipso.Ar9170.Usb.CommandQueue

/-!
# Delivery of the frames

Nothing takes up a buffer that `ar9170_write_data` appends to a list that is not
empty. So the frames are delivered as long as `ar9170_write_data` finds the list
empty, and not only the lock free: a TX status and a pre-TBTT release the lock
before the callback has freed the buffer.
-/

namespace Calipso.Ar9170.Usb

open Interrupt OutPipe

namespace OutPipe

/-- The chunks in the list that were not submitted. -/
def unsent (p : OutPipe) : List Chunk :=
  p.pending.filter fun c => some c ∉ p.submitted

/-- Between two calls all that was accepted has been submitted, and the list
holds no more than one node. -/
structure AllSubmitted (p : OutPipe) : Prop extends Settled p where
  length : p.list.length ≤ 1
  submitted : p.submitted = p.accepted.map some

/-- The main loop works on the only chunk of the list. -/
structure Single (c : Chunk) (bufLock : Bool) (p : OutPipe) : Prop where
  bufLock : p.bufLock = bufLock
  held : p.held = false
  head : p.head = some c
  transfer : p.transfer = none
  length : p.list.length ≤ 1

end OutPipe

variable {e : Endpoint} {J : OutPipe → Prop} {brk : Nat} {p q : OutPipe} {s t : State}

theorem OutPipe.AllSubmitted.calm (hp : AllSubmitted p) (h : Calm p q) : AllSubmitted q where
  toSettled := hp.toSettled.calm h
  length := Nat.le_trans h.length hp.length
  submitted := by
    rw [h.submitted, h.accepted]
    exact hp.submitted

theorem OutPipe.AllSubmitted.unsent_eq_nil (hp : AllSubmitted p) (hd : p.Ordered brk) :
    p.unsent = [] := by
  rw [unsent, List.filter_eq_nil_iff]
  intro c hc
  have hmem : some c ∈ p.submitted := by
    rw [hp.submitted, hd.accepted]
    exact List.mem_map_of_mem (List.mem_append_right _ hc)
  simp [hmem]

theorem OutPipe.Single.calm {c : Chunk} {b : Bool} (hp : Single c b p) (h : Calm p q) :
    Single c b q := by
  have hfixed : p.Fixed := .inl hp.transfer
  constructor
  · exact h.bufLock.trans hp.bufLock
  · exact h.held.trans hp.held
  · exact (h.head hfixed).trans hp.head
  · exact (h.fixed hfixed).2.trans hp.transfer
  · exact Nat.le_trans h.length hp.length

theorem allSubmitted_stable : CalmStable fun _ => AllSubmitted :=
  fun _ _ _ hp h => hp.calm h

/-! ### Frames -/

/-- The endpoint is idle and takes the only chunk of the list. -/
theorem OutPipe.Single.uhdEpRun {c : Chunk} (hp : Single c false p) (hd : p.Ordered brk)
    (hout : p.outBuffer = some c) : AllSubmitted (p.uhdEpRun true) := by
  have hrun : p.uhdEpRun true =
      { p with
        transfer := some (some c), submitted := p.submitted ++ [some c], held := false } := by
    simp [OutPipe.uhdEpRun, runs, hp.transfer, hout]
  obtain ⟨a, rest, hlist, -⟩ := hd.list_of_head_some hp.head
  have hrest : rest = [] := by
    have hlength := hp.length
    rw [hlist, List.length_cons] at hlength
    exact List.length_eq_zero_iff.mp (Nat.le_zero.mp (Nat.le_of_succ_le_succ hlength))
  have hpending : p.pending = [c] := by simp [pending, hlist, hrest]
  rw [hrun]
  refine ⟨⟨hp.bufLock, rfl, fun _ => rfl⟩, hp.length, ?_⟩
  have haccepted : p.accepted = p.freed ++ [c] := by rw [hd.accepted, hpending]
  simp [hd.submitted, hp.transfer, hd.sent, haccepted]

theorem sat_writeData {c : Chunk} {env : Env} (hlen : c.len ≤ bulkEndpointMaxOutSize)
    (hok : env.accepts = true)
    (hs : At .bulkOut (fun brk p => AllSubmitted p ∧ Fresh c brk p ∧ p.head = none ∧
      p.transfer = none) s) (hinv : (pipeRely .bulkOut J).inv s) :
    Sat (pipeRely .bulkOut J) (writeData c env)
      (fun _ t => At .bulkOut (fun _ => AllSubmitted) t) s := by
  have hidle (b : Bool) : CalmStable fun brk p => p.bufLock = b ∧ p.held = false ∧
      Fresh c brk p ∧ p.head = none ∧ p.transfer = none := by
    intro brk p q hp h
    obtain ⟨hbuf, hheld, hfresh, hhead, ht⟩ := hp
    have hfixed : p.Fixed := .inl ht
    exact ⟨h.bufLock.trans hbuf, h.held.trans hheld, hfresh.calm h, (h.head hfixed).trans hhead,
      (h.fixed hfixed).2.trans ht⟩
  have hsingle (b : Bool) : CalmStable fun _ => Single c b := fun _ _ _ hp h => hp.calm h
  have hcopied : CalmStable fun _ p => Single c false p ∧ p.outBuffer = some c :=
    fun _ _ _ hp h => ⟨hp.1.calm h, h.outBuffer.trans hp.2⟩
  have hstart : At .bulkOut (fun brk p => p.bufLock = false ∧ p.held = false ∧ Fresh c brk p ∧
      p.head = none ∧ p.transfer = none) s :=
    ⟨hs.1, hs.2.1.bufLock, hs.2.1.held, hs.2.2⟩
  unfold writeData
  rw [if_neg (Nat.not_lt.mpr hlen), hok]
  apply (sat_on (hidle false) (hidle true) (fun brk p hp hordered => ?_) hstart).seq hinv
  · intro _ t ht hat
    apply (sat_atomically_on (g := OutPipe.head) (f := hold) (Q := fun head brk p =>
      head = none ∧ p.bufLock = true ∧ p.held = false ∧ Fresh c brk p ∧ p.head = none ∧
        p.transfer = none) (hidle true) (fun head brk p q hp h => ⟨hp.1, hidle true brk p q hp.2 h⟩)
      (fun brk p hp hordered => ?_) hat).seq ht
    · intro head u hu hatu
      obtain ⟨hw, rfl, hatu⟩ := hatu
      have hatu' : At .bulkOut (fun brk p => p.bufLock = true ∧ p.held = false ∧
          Fresh c brk p ∧ p.head = none ∧ p.transfer = none) u := ⟨hw, hatu⟩
      refine Sat.read_bind fun v huv hv => ?_
      have hatv := hatu'.stable (hidle true) huv
      obtain ⟨a, hlist⟩ := hv.1.list_of_head_none hatv.2.2.2.2.1
      have hnext : v.tx.hasNext = false := by
        have hlist' : v.tx.list = [⟨a, none⟩] := hlist
        simp [hasNext, hlist']
      simp only [hnext, Bool.false_eq_true, if_false]
      apply (sat_on (hidle true) (hsingle true) (fun brk p hp hordered => ?_) hatv).seq hv
      · intro _ w hw hatw
        apply (sat_on (hsingle true) (hsingle false) (fun brk p hp hordered => ?_) hatw).seq hw
        · intro _ x hx hatx
          apply (sat_on (hsingle false) (hsingle false) (fun brk p hp hordered => ?_) hatx).seq hx
          · intro _ y hy haty
            have hsent : Sat (pipeRely .bulkOut J) (usbSendData c true)
                (fun result z => result = true ∧ At .bulkOut (fun _ => AllSubmitted) z) y := by
              unfold usbSendData
              apply (sat_on (hsingle false) hcopied (fun brk p hp hordered => ?_) haty).seq hy
              · intro _ z hz hatz
                refine (sat_atomically_on (g := (·.runs true))
                  (Q := fun result _ p => result = true ∧ AllSubmitted p) hcopied
                  (fun result brk p q hp h => ⟨hp.1, hp.2.calm h⟩)
                  (fun brk p hp hordered => ?_) hatz).mono
                  fun result z' _ hat' => ⟨hat'.2.1, hat'.1, hat'.2.2⟩
                exact ⟨hordered.uhdEpRun hp.1.head hp.2 true, by simp [runs, hp.1.transfer],
                  hp.1.uhdEpRun hordered hp.2⟩
              · exact ⟨hordered.copyOut hp.head,
                  ⟨hp.bufLock, hp.held, hp.head, hp.transfer, hp.length⟩, rfl⟩
            apply hsent.seq hy
            intro result z hz hres
            rw [if_pos hres.1]
            exact fun z' hzz' _ => hres.2.stable allSubmitted_stable hzz'
          · exact ⟨hordered.frame (Nat.le_refl _) rfl, hp.bufLock, hp.held, hp.head, hp.transfer,
              hp.length⟩
        · exact ⟨hordered.frame (Nat.le_refl _) rfl, rfl, hp.held, hp.head, hp.transfer,
            hp.length⟩
      · obtain ⟨hbuf, hheld, hfresh, hhead, ht⟩ := hp
        obtain ⟨hordered', hhead'⟩ := hordered.storeHead hhead hfresh.1 hfresh.2
        obtain ⟨b, hb⟩ := hordered.list_of_head_none hhead
        have hstore : p.storeHead c =
            { p with list := [⟨b, some c⟩], accepted := p.accepted ++ [c] } := by
          simp [OutPipe.storeHead, hb]
        refine ⟨hordered', ?_⟩
        rw [hstore]
        exact ⟨hbuf, hheld, rfl, ht, Nat.le_refl _⟩
    · have hhold : p.hold = p := by simp [hold, hp.2.2.2.1]
      rw [hhold]
      exact ⟨hordered, hp.2.2.2.1, hp⟩
  · exact ⟨hordered.frame (Nat.le_refl _) rfl, rfl, hp.2⟩

/-- The frame gets to `ar9170_write_data`. -/
def writes (len : Nat) (started hasData : Bool) (env : Env) : Bool :=
  env.bufferOk && started && hasData && decide (len ≤ bulkEndpointMaxOutSize)

theorem sat_usbTx {len : Nat} {started hasData : Bool} {env : Env}
    (hidle : writes len started hasData env = true → env.accepts = true ∧ s.tx.head = none)
    (hs : At .bulkOut (fun _ => AllSubmitted) s) (hinv : (pipeRely .bulkOut J).inv s) :
    Sat (pipeRely .bulkOut J) (usbTx len started hasData env)
      (fun _ t => At .bulkOut (fun _ => AllSubmitted) t) s := by
  have done (u : State) (hu : At .bulkOut (fun _ => AllSubmitted) u) :
      Sat (pipeRely .bulkOut J) (pure ()) (fun _ t => At .bulkOut (fun _ => AllSubmitted) t) u :=
    fun v huv _ => hu.stable allSubmitted_stable huv
  unfold usbTx
  cases hbuf : env.bufferOk with
  | false =>
      rw [if_neg Bool.false_ne_true]
      exact done s hs
  | true =>
      rw [if_pos rfl]
      refine Sat.atomically_bind fun t hst ht => ?_
      have hatt := hs.stable allSubmitted_stable hst
      have hinv' : (pipeRely .bulkOut J).inv { t with brk := t.brk + 1 } :=
        ⟨ht.1.frame (Nat.le_succ _) rfl, ht.2⟩
      refine ⟨hinv', ?_⟩
      split
      next hwrites =>
        have hw : writes len started hasData env = true := by
          rw [writes, hbuf]
          simpa [Bool.and_assoc] using hwrites
        obtain ⟨hok, hhead⟩ := hidle hw
        have hlen : len ≤ bulkEndpointMaxOutSize := by
          simp only [Bool.and_eq_true, decide_eq_true_eq] at hwrites
          exact hwrites.2
        -- an empty list has no transfer, so the list is still empty
        have htransfer : (s.pipe .bulkOut).transfer = none := hinv.1.transfer_eq_none hhead
        have hfixed : (s.pipe .bulkOut).Fixed := .inl htransfer
        have hhead' : (t.pipe .bulkOut).head = none := (hst.1.head hfixed).trans hhead
        have htransfer' : (t.pipe .bulkOut).transfer = none :=
          (hst.1.fixed hfixed).2.trans htransfer
        have hfresh : Fresh ⟨t.brk, len⟩ (t.brk + 1) (t.pipe .bulkOut) :=
          ⟨Nat.lt_succ_self _, fun d hd => Nat.ne_of_lt (ht.1.buffer_lt d hd)⟩
        have hstart : At .bulkOut (fun brk p => AllSubmitted p ∧ Fresh ⟨t.brk, len⟩ brk p ∧
            p.head = none ∧ p.transfer = none) { t with brk := t.brk + 1 } :=
          ⟨hatt.1, hatt.2, hfresh, hhead', htransfer'⟩
        have hlen' : (⟨t.brk, len⟩ : Chunk).len ≤ bulkEndpointMaxOutSize := hlen
        apply (sat_writeData hlen' hok hstart hinv').seq hinv'
        exact fun _ u _ hat => done u hat
      next => exact done _ ⟨hatt.1, hatt.2⟩

/-! ### Whole runs -/

/-- Frames are passed down when the lock of the bulk endpoint is free. -/
def lockFreeGuard : Guard State Irq Call where
  irq _ _ := True
  call
    | .tx _ _ _ _, s => s.tx.asyncLock = false
    | _, _ => True

/-- The steps under which frames are delivered: the callbacks find a transfer
that ended well, and `ar9170_write_data` finds an empty list and an endpoint
that takes the frame. -/
def bulkGuard : Guard State Irq Call where
  irq := completesWell .bulkOut
  call
    | .tx len started hasData env, s => s.tx.asyncLock = false ∧
        (writes len started hasData env = true → env.accepts = true ∧ s.tx.head = none)
    | _, _ => True

instance (s : State) (l : Label Irq Call) : Decidable (lockFreeGuard.admits s l) :=
  match l with
  | .irq _ => .isTrue trivial
  | .main => .isTrue trivial
  | .call (.tx _ _ _ _) => inferInstanceAs (Decidable (s.tx.asyncLock = false))
  | .call (.exec _ _ _ _ _) => .isTrue trivial
  | .call (.submit _ _) => .isTrue trivial
  | .call (.flush _) => .isTrue trivial

instance (s : State) (l : Label Irq Call) : Decidable (bulkGuard.admits s l) :=
  match l with
  | .irq i => inferInstanceAs (Decidable (completesWell .bulkOut i s))
  | .main => .isTrue trivial
  | .call (.tx len started hasData env) => inferInstanceAs (Decidable (s.tx.asyncLock = false ∧
      (writes len started hasData env = true → env.accepts = true ∧ s.tx.head = none)))
  | .call (.exec _ _ _ _ _) => .isTrue trivial
  | .call (.submit _ _) => .isTrue trivial
  | .call (.flush _) => .isTrue trivial

theorem sat_body_bulk {k : Call} (hinv : (pipeRely .bulkOut AllSubmitted).inv s)
    (hs : At .bulkOut (fun _ => AllSubmitted) s) (hk : bulkGuard.call k s) :
    Sat (pipeRely .bulkOut AllSubmitted) (body k)
      (fun _ t => At .bulkOut (fun _ => AllSubmitted) t) s := by
  have hcmd : PipeActs .intOut (Elsewhere .bulkOut) := Elsewhere.pipeActs (by decide)
  have elsewhere {α : Type} {p : Prog State α} (hp : Acts (Elsewhere .bulkOut) p) {u : State}
      (hu : At .bulkOut (fun _ => AllSubmitted) u) :
      Sat (pipeRely .bulkOut AllSubmitted) p (fun _ t => At .bulkOut (fun _ => AllSubmitted) t) u :=
    sat_elsewhere hp allSubmitted_stable (fun _ _ _ _ h => h) hu
  cases k with
  | exec cmd plen out outlen env =>
      have hslot (out : Option Nat) (outlen : Nat) : Elsewhere .bulkOut fun s =>
          { s with
            brk := s.brk + 1
            slotCmd := some s.brk
            supplied := s.supplied ++ [⟨s.brk, out, outlen⟩] } :=
        .of_eq (fun _ => rfl) (fun _ => rfl) (fun _ => Nat.le_succ _) fun _ => rfl
      apply (sat_execCmd (P := fun _ => AllSubmitted) (fun _ _ hp h => hp.calm h)
        allSubmitted_stable
        (fun t _ hat => elsewhere (hcmd.submitCmd _ _ env fun _ _ _ => hslot _ _) hat) hinv hs).seq
        hinv
      exact fun _ t _ hat => elsewhere (Acts.ret _) hat
  | submit len env =>
      have hsubmit := hcmd.submitCmd len none env fun _ _ h => by cases h
      exact elsewhere (hsubmit.bind fun _ => Acts.ret _) hs
  | flush accepts => exact elsewhere (hcmd.schAsyncCmdCheck accepts) hs
  | tx len started hasData env => exact sat_usbTx hk.2 hs hinv

/-- In every state of a run the frames are delivered in order, and once the
running call has returned or waits, the list holds nothing unsent. -/
theorem transmitted_of_run {cmdBufs : Nat} {ls : List (Label Irq Call)} {c : Config State}
    (h : machine.Run bulkGuard (.idle (.init cmdBufs)) ls c) :
    c.state.tx.delivered ∧
      (c.rest = .ret () ∨ c.state.waiting.isSome = true →
        (c.state.tx.asyncLock = false → c.state.tx.unsent = []) ∧
          c.state.tx.submitted = c.state.tx.accepted.map some) := by
  have hinit : AllSubmitted ((State.init cmdBufs).pipe .bulkOut) :=
    ⟨⟨rfl, rfl, fun h => by cases h⟩, Nat.le_refl _, rfl⟩
  obtain ⟨hordered, hall⟩ := pipe_of_run (e := .bulkOut) (fun _ _ hp h => hp.calm h)
    (fun _ _ hG => hG) (fun k s hinv hs hk => sat_body_bulk hinv hs hk) hinit h
  refine ⟨hordered.delivered, fun hc => ⟨fun _ => ?_, (hall hc).submitted⟩⟩
  exact (hall hc).unsent_eq_nil hordered

/-- Two frames, each after the callback of the one before it. -/
def twoFrames : List (Label Irq Call) :=
  callFor (.tx 100 true true ⟨true, true, true⟩) 9 ++
    [.irq (.response ⟨0, rspTxComp, 4, 8, 0⟩), .irq (.bulkOutDone .noError)] ++
    callFor (.tx 60 true true ⟨true, true, true⟩) 9 ++ [.irq (.bulkOutDone .noError)]

theorem transmitted_of_run_twoFrames :
    ∃ c, machine.Run bulkGuard (.idle (.init 4)) twoFrames c ∧ c.state.tx.delivered ∧
      c.state.tx.freed = [⟨2, 100⟩, ⟨3, 60⟩] := by
  obtain ⟨c, hrun, hc⟩ := machine.exists_run_of_exec bulkGuard (.idle (.init 4)) twoFrames
    (fun s => s.tx.freed = [⟨2, 100⟩, ⟨3, 60⟩]) (by decide) (by decide)
  exact ⟨c, hrun, (transmitted_of_run hrun).1, hc⟩

/-- The TX status overtakes the callback, so the second frame is appended to the
list while the first one is still there. -/
def statusBeforeCallback : List (Label Irq Call) :=
  callFor (.tx 100 true true ⟨true, true, true⟩) 9 ++
    [.irq (.response ⟨0, rspTxComp, 4, 8, 0⟩)] ++
    callFor (.tx 60 true true ⟨true, true, true⟩) 7 ++ [.irq (.bulkOutDone .noError)]

theorem unsent_statusBeforeCallback :
    ∃ c, machine.Run lockFreeGuard (.idle (.init 4)) statusBeforeCallback c ∧
      c.rest = .ret () ∧ c.state.tx.asyncLock = false ∧ c.state.tx.unsent = [⟨3, 60⟩] := by
  obtain ⟨c, hrun, hidle, hc⟩ := machine.exists_idle_run_of_exec lockFreeGuard
    (.idle (.init 4)) statusBeforeCallback
    (fun s => s.tx.asyncLock = false ∧ s.tx.unsent = [⟨3, 60⟩]) (by decide) (by decide)
  exact ⟨c, hrun, hidle, hc⟩

end Calipso.Ar9170.Usb
