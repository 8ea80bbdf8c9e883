import Calipso.Ar9170.Psm.Actions

/-!
# Which transmission a wait flag waits for

The status responses of the device do not name the frame they report. The code
pairs them with the frame it waits for: the flags `tx_atim_wait` and
`tx_data_wait` and the one slot `last_ATIM_DA`, `last_ATIM_A3`. The ghost field
`awaited` is the transmission the flag that is set was set for. As long as no
other status arrives while `tx_atim_wait` is set, the slot holds the addresses
of the awaited ATIM frame.
-/

namespace Calipso.Ar9170

open Interrupt

variable (cf : Conf)

/-- The slot holds the addresses of this ATIM frame. -/
def State.slotHolds (s : State) (atim : SkBuff) : Prop :=
  s.lastAtimDA = atim.addr1 ∧ (cf.psMode = .mhPsm → s.lastAtimA3 = atim.addr3)

structure AwaitedInv (s : State) : Prop where
  one : s.txAtimWait = true → s.txDataWait = false
  awaited : ∀ n, s.awaited = some n → ∃ tr, s.sent[n]? = some tr ∧
    s.waitFlag tr.kind = true ∧ (tr.kind = .atim → s.slotHolds cf tr.frame)

/-- While an ATIM frame is waited for, no other transmission reports. -/
def inTurn (st : TxStatus) (s : State) : Prop :=
  s.txAtimWait = true → s.awaited = some st.n

instance (st : TxStatus) (s : State) : Decidable (inTurn st s) :=
  inferInstanceAs (Decidable (_ → _))

/-- The rely of the main loop: interrupts clear wait flags and never set them,
and they leave the slot alone while no transmission is awaited. -/
def awaitedRely : Rely State where
  inv := AwaitedInv cf
  rel s t := (s.txDataWait = false → t.txDataWait = false) ∧
    (s.txAtimWait = false → t.txAtimWait = false) ∧
    (s.awaited = none → t.awaited = none ∧
      t.lastAtimDA = s.lastAtimDA ∧ t.lastAtimA3 = s.lastAtimA3) ∧
    t.txPendingAtims = s.txPendingAtims
  refl _ := ⟨id, id, fun h => ⟨h, rfl, rfl⟩, rfl⟩
  trans h h' := by
    refine ⟨h'.1 ∘ h.1, h'.2.1 ∘ h.2.1, fun hn => ?_, h'.2.2.2.trans h.2.2.2⟩
    obtain ⟨hn', hda, ha3⟩ := h.2.2.1 hn
    obtain ⟨hn'', hda', ha3'⟩ := h'.2.2.1 hn'
    exact ⟨hn'', hda'.trans hda, ha3'.trans ha3⟩

/-- The fields the pairing depends on. -/
def State.pairing (s : State) :
    Bool × Bool × Option Nat × MacAddr × MacAddr × List Transmission :=
  (s.txAtimWait, s.txDataWait, s.awaited, s.lastAtimDA, s.lastAtimA3, s.sent)

variable {cf}

theorem awaitedInv_of_clear {s : State} (hatim : s.txAtimWait = false)
    (hn : s.awaited = none) : AwaitedInv cf s where
  one h := by
    rw [hatim] at h
    cases h
  awaited n h := by
    rw [hn] at h
    cases h

theorem AwaitedInv.waiting {s : State} (h : AwaitedInv cf s) {n : Nat}
    (hn : s.awaited = some n) : s.waiting := by
  obtain ⟨tr, -, hflag, -⟩ := h.awaited n hn
  cases hk : tr.kind with
  | data => rw [hk] at hflag; exact .inr hflag
  | atim => rw [hk] at hflag; exact .inl hflag
  | beacon => rw [hk] at hflag; cases hflag

/-- Nothing is awaited while both wait flags are clear. -/
theorem AwaitedInv.awaited_eq_none {s : State} (h : AwaitedInv cf s)
    (hdata : s.txDataWait = false) (hatim : s.txAtimWait = false) : s.awaited = none := by
  by_contra hne
  obtain ⟨n, hn⟩ := Option.ne_none_iff_exists'.mp hne
  rcases h.waiting hn with hw | hw
  · rw [hatim] at hw
    cases hw
  · rw [hdata] at hw
    cases hw

/-- While an ATIM frame is waited for, the awaited transmission is one. -/
theorem AwaitedInv.awaited_atim {s : State} (h : AwaitedInv cf s) {n : Nat}
    (hn : s.awaited = some n) (hatim : s.txAtimWait = true) :
    ∃ tr, s.sent[n]? = some tr ∧ tr.kind = .atim ∧ s.slotHolds cf tr.frame := by
  obtain ⟨tr, htr, hflag, hslot⟩ := h.awaited n hn
  have hdata := h.one hatim
  cases hk : tr.kind with
  | data =>
      rw [hk] at hflag
      simp only [State.waitFlag, hdata] at hflag
      cases hflag
  | atim => exact ⟨tr, htr, hk, hslot hk⟩
  | beacon => rw [hk] at hflag; cases hflag

theorem AwaitedInv.frame {s t : State} (h : AwaitedInv cf s) (ht : t.pairing = s.pairing) :
    AwaitedInv cf t := by
  simp only [State.pairing, Prod.mk.injEq] at ht
  obtain ⟨hatim, hdata, haw, hda, ha3, hsent⟩ := ht
  have hflag : ∀ kind, t.waitFlag kind = s.waitFlag kind := by
    intro kind
    cases kind
    · exact hdata
    · exact hatim
    · rfl
  refine ⟨?_, fun n hn => ?_⟩
  · rw [hatim, hdata]
    exact h.one
  · rw [haw] at hn
    obtain ⟨tr, htr, hf, hslot⟩ := h.awaited n hn
    refine ⟨tr, hsent ▸ htr, (hflag _).trans hf, fun hk => ?_⟩
    unfold State.slotHolds
    rw [hda, ha3]
    exact hslot hk

theorem awaitedRely_rel_of_pairing {s t : State} (h : t.pairing = s.pairing)
    (hq : t.txPendingAtims = s.txPendingAtims) : (awaitedRely cf).rel s t := by
  simp only [State.pairing, Prod.mk.injEq] at h
  obtain ⟨hatim, hdata, haw, hda, ha3, -⟩ := h
  refine ⟨fun hs => hdata.trans hs, fun hs => hatim.trans hs, fun hs => ?_, hq⟩
  exact ⟨haw.trans hs, hda, ha3⟩

section Interrupts

theorem psUpdate_pairing (s : State) :
    (psUpdate cf s).pairing = s.pairing ∧ (psUpdate cf s).txPendingAtims = s.txPendingAtims := by
  unfold psUpdate psmSchedulePowersave
  split
  · split
    · split
      · exact ⟨rfl, rfl⟩
      · exact ⟨rfl, rfl⟩
    · split
      · exact ⟨rfl, rfl⟩
      · exact ⟨rfl, rfl⟩
  · exact ⟨rfl, rfl⟩

theorem timerFires_pairing {s s' : State} (h : timerFires cf s = some s') :
    s'.pairing = s.pairing ∧ s'.txPendingAtims = s.txPendingAtims := by
  unfold timerFires at h
  obtain ⟨callback, -, rfl⟩ := Option.map_eq_some_iff.mp h
  cases callback with
  | atimWindowStart => exact ⟨rfl, rfl⟩
  | atimWindowEnd =>
      simp only [psmAtimWindowEnd]
      split
      · exact ⟨rfl, rfl⟩
      · exact psUpdate_pairing _
  | softBeaconTx =>
      simp only [psmSoftBeaconTx]
      split <;> exact ⟨rfl, rfl⟩

theorem settle_of_clear {s : State} (hatim : s.txAtimWait = false)
    (hdata : s.txDataWait = false) : s.settle = { s with awaited := none } := by
  refine if_neg ?_
  rintro (h | h)
  · rw [hatim] at h
    cases h
  · rw [hdata] at h
    cases h

/-- After PRE-TBTT only a data frame can still be waited for. -/
theorem AwaitedInv.clearWaitFlags {s : State} (h : AwaitedInv cf s) :
    AwaitedInv cf (clearWaitFlags s) ∧ (awaitedRely cf).rel s (clearWaitFlags s) := by
  unfold Ar9170.clearWaitFlags
  by_cases hdata : s.txDataWait = true
  · have hatim : s.txAtimWait = false := by
      by_contra hne
      rw [Bool.not_eq_false] at hne
      rw [h.one hne] at hdata
      cases hdata
    simp only [hdata, clearAtSecondTbtt, if_true]
    cases hmark : s.clearTxDataWaitAtNextTbtt with
    | true =>
        rw [settle_of_clear rfl rfl]
        refine ⟨awaitedInv_of_clear rfl rfl, ?_⟩
        exact ⟨fun _ => rfl, fun _ => rfl, fun _ => ⟨rfl, rfl, rfl⟩, rfl⟩
    | false =>
        rw [State.settle, if_pos (.inr rfl)]
        refine ⟨⟨nofun, fun n hn => ?_⟩, ?_⟩
        · obtain ⟨tr, htr, hflag, -⟩ := h.awaited n hn
          refine ⟨tr, htr, ?_, fun hk => ?_⟩
          · cases hk : tr.kind with
            | data => rfl
            | atim =>
                rw [hk] at hflag
                exact absurd (hatim.symm.trans hflag) (by decide)
            | beacon => rw [hk] at hflag; cases hflag
          · rw [hk] at hflag
            exact absurd (hatim.symm.trans hflag) (by decide)
        · refine ⟨fun hs => ?_, fun _ => rfl, fun hs => ⟨hs, rfl, rfl⟩, rfl⟩
          rw [hdata] at hs
          cases hs
  · rw [Bool.not_eq_true] at hdata
    simp only [hdata, clearAtSecondTbtt, Bool.false_eq_true, if_false]
    rw [settle_of_clear rfl rfl]
    refine ⟨awaitedInv_of_clear rfl rfl, ?_⟩
    exact ⟨fun _ => rfl, fun _ => rfl, fun _ => ⟨rfl, rfl, rfl⟩, rfl⟩

theorem handlePs_pairing (s : State) :
    (handlePs s).pairing = s.pairing ∧ (handlePs s).txPendingAtims = s.txPendingAtims := by
  unfold handlePs
  split
  · exact ⟨rfl, rfl⟩
  · split
    · exact ⟨rfl, rfl⟩
    · split <;> exact ⟨rfl, rfl⟩

theorem AwaitedInv.rspPreTbtt (rfOn : Bool) {s : State} (h : AwaitedInv cf s) :
    AwaitedInv cf (rspPreTbtt cf rfOn s) ∧ (awaitedRely cf).rel s (rspPreTbtt cf rfOn s) := by
  have hkeep : ∀ t : State, t.pairing = s.pairing → t.txPendingAtims = s.txPendingAtims →
      AwaitedInv cf t ∧ (awaitedRely cf).rel s t :=
    fun t ht hq => ⟨h.frame ht, awaitedRely_rel_of_pairing ht hq⟩
  have hclear : ∀ t : State, t.pairing = s.pairing → t.txPendingAtims = s.txPendingAtims →
      AwaitedInv cf (Ar9170.clearWaitFlags t) ∧
        (awaitedRely cf).rel s (Ar9170.clearWaitFlags t) := by
    intro t ht hq
    have hc := (hkeep t ht hq).1.clearWaitFlags
    exact ⟨hc.1, (awaitedRely cf).trans (hkeep t ht hq).2 hc.2⟩
  unfold Ar9170.rspPreTbtt
  split
  · exact hkeep _ (handlePs_pairing _).1 (handlePs_pairing _).2
  · exact hkeep _ rfl rfl
  · split <;> exact hclear _ rfl rfl

theorem creditLastAtim_flags (cf : Conf) (st : TxStatus) (s : State) :
    (creditLastAtim cf st s).txAtimWait = s.txAtimWait ∧
    (creditLastAtim cf st s).txDataWait = s.txDataWait ∧
    (creditLastAtim cf st s).sent = s.sent ∧
    (creditLastAtim cf st s).txPendingAtims = s.txPendingAtims := by
  rw [creditLastAtim_eq]
  exact ⟨rfl, rfl, rfl, rfl⟩

/-- A status that comes in turn releases the flag it was awaited for. -/
theorem AwaitedInv.txStatus {s : State} (h : AwaitedInv cf s) (st : TxStatus)
    (hst : inTurn st s) :
    AwaitedInv cf (txStatus cf st s) ∧ (awaitedRely cf).rel s (txStatus cf st s) := by
  unfold Ar9170.txStatus
  split
  · exact ⟨h.frame rfl, awaitedRely_rel_of_pairing rfl rfl⟩
  · split
    next hatim =>
      have hdata := h.one hatim
      split
      · have hflags := creditLastAtim_flags cf st (releaseTxAtimWait s)
        rw [settle_of_clear (s := handleATIMStatusRsp cf st _) hflags.1 (hflags.2.1.trans hdata)]
        refine ⟨awaitedInv_of_clear hflags.1 rfl, ?_⟩
        refine ⟨fun _ => hflags.2.1.trans hdata, fun _ => hflags.1, fun hn => ?_, hflags.2.2.2⟩
        rw [hst hatim] at hn
        cases hn
      · exact ⟨h, (awaitedRely cf).refl s⟩
    next hatim =>
      rw [Bool.not_eq_true] at hatim
      rw [settle_of_clear (s := releaseTxDataWait s) hatim rfl]
      refine ⟨awaitedInv_of_clear hatim rfl, ?_⟩
      exact ⟨fun _ => rfl, fun _ => hatim, fun _ => ⟨rfl, rfl, rfl⟩, rfl⟩

theorem awaitedInv_irq (i : Irq) (s s' : State) (h : AwaitedInv cf s)
    (hG : ∀ st, i = .txStatus st → inTurn st s) (hi : irq cf i s = some s') :
    AwaitedInv cf s' ∧ (awaitedRely cf).rel s s' := by
  have hkeep : s'.pairing = s.pairing → s'.txPendingAtims = s.txPendingAtims →
      AwaitedInv cf s' ∧ (awaitedRely cf).rel s s' :=
    fun ht hq => ⟨h.frame ht, awaitedRely_rel_of_pairing ht hq⟩
  cases i with
  | preTbtt rfOn => cases hi; exact h.rspPreTbtt rfOn
  | timer => exact hkeep (timerFires_pairing hi).1 (timerFires_pairing hi).2
  | txStatus st =>
      obtain ⟨-, rfl⟩ := irq_txStatus_eq_some hi
      have hr : AwaitedInv cf { s with reported := st.n :: s.reported } := h.frame rfl
      have hst := hr.txStatus st (hG st rfl)
      exact ⟨hst.1, (awaitedRely cf).trans (awaitedRely_rel_of_pairing rfl rfl) hst.2⟩
  | txComp =>
      cases hi
      unfold txCompUnlock at hkeep ⊢
      split <;> exact ⟨h.frame rfl, awaitedRely_rel_of_pairing rfl rfl⟩
  | bulkOutDone => cases hi; exact hkeep rfl rfl
  | beaconConfig =>
      cases hi
      unfold rspBeaconConfig at hkeep ⊢
      split <;> exact ⟨h.frame rfl, awaitedRely_rel_of_pairing rfl rfl⟩
  | rxAtim mgmt ok =>
      cases hi
      unfold scheduleHandleMpdu at hkeep ⊢
      split <;> exact ⟨h.frame rfl, awaitedRely_rel_of_pairing rfl rfl⟩
  | rxOther ok =>
      cases hi
      unfold scheduleHandleMpdu at hkeep ⊢
      split <;> exact ⟨h.frame rfl, awaitedRely_rel_of_pairing rfl rfl⟩
  | env e => cases hi; exact hkeep rfl rfl

end Interrupts

section MainLoop

theorem EraseAction.pairing {f : State → State} (hf : EraseAction f) (s : State) :
    (f s).pairing = s.pairing := by
  cases hf
  case skipErase => unfold Ar9170.skipErase; split <;> rfl
  case eraseIfEmpty => unfold Ar9170.eraseIfEmpty; split <;> rfl
  all_goals rfl

theorem PowerAction.pairing {f : State → State} (hf : PowerAction f) (s : State) :
    (f s).pairing = s.pairing := by
  cases hf
  case command hf => cases hf <;> rfl
  case fallAsleep => rfl

theorem CreateAction.pairing {f : State → State} (hf : CreateAction cf f) (s : State) :
    (f s).pairing = s.pairing := by
  cases hf
  case addAtim => rw [addAtim_eq]; rfl
  case addData => rw [addData_eq]; rfl
  all_goals rfl

theorem PickAction.pairing {f : State → State} (hf : PickAction f) (s : State) :
    (f s).pairing = s.pairing := by
  cases hf
  case markSelected => unfold Ar9170.markSelected; split <;> rfl
  case takeOut => unfold Ar9170.takeOut; split <;> rfl
  all_goals rfl

theorem RxAction.pairing {f : State → State} (hf : RxAction cf f) (s : State) :
    (f s).pairing = s.pairing := by
  cases hf
  case create hf => exact hf.pairing s
  all_goals rfl

theorem setQueue_pairing (kind : TxKind) (queue : List SkBuff) (s : State) :
    (setQueue kind queue s).pairing = s.pairing := by
  cases kind <;> rfl

variable (cf) in
/-- What must hold where a frame is submitted: the slot is filled for an ATIM
frame, and no ATIM frame is waited for when a data frame is sent. -/
def State.sendReady (kind : TxKind) (f : SkBuff) (s : State) : Prop :=
  match kind with
  | .data => s.txAtimWait = false
  | .atim => s.awaited = none ∧ s.slotHolds cf f
  | .beacon => True

theorem sendReady_stable {kind : TxKind} {f : SkBuff} {s t : State}
    (h : s.sendReady cf kind f) (hst : (awaitedRely cf).rel s t) : t.sendReady cf kind f := by
  cases kind with
  | data => exact hst.2.1 h
  | atim =>
      obtain ⟨hn, hda, ha3⟩ := hst.2.2.1 h.1
      exact ⟨hn, hda.trans h.2.1, fun hmh => ha3.trans (h.2.2 hmh)⟩
  | beacon => trivial

/-- The submitted frame becomes the awaited one when its flag is set. -/
theorem AwaitedInv.sendData {s : State} (h : AwaitedInv cf s) {kind : TxKind} {f : SkBuff}
    (hready : s.sendReady cf kind f) : AwaitedInv cf (sendData kind f s) := by
  unfold Ar9170.sendData
  split
  · refine ⟨h.one, fun n hn => ?_⟩
    by_cases hflag : s.waitFlag kind = true
    · simp only [hflag, if_true, Option.some.injEq] at hn
      subst hn
      refine ⟨⟨kind, f, s.interval⟩, by simp, hflag, fun hk => ?_⟩
      simp only at hk
      subst hk
      exact hready.2
    · simp only [hflag] at hn
      obtain ⟨tr, htr, hf, hslot⟩ := h.awaited n hn
      have hlt := (List.getElem?_eq_some_iff.mp htr).1
      exact ⟨tr, (List.getElem?_append_left hlt).trans htr, hf, hslot⟩
  · exact h

theorem sat_opTx_awaited (kind : TxKind) {f : SkBuff} {s : State}
    (h : s.sendReady cf kind f) : Sat (awaitedRely cf) (opTx kind f) (fun _ _ => True) s := by
  refine Sat.atomically_bind fun t hst ht => ⟨ht.frame rfl, ?_⟩
  have ht' : (observe (.opTx f) t).sendReady cf kind f := by
    cases kind <;> exact sendReady_stable h hst
  split
  · refine Sat.read_bind fun u htu hu => ?_
    split
    · refine Sat.seq (J := fun _ _ => True) ?_ hu fun _ _ _ _ => Sat.ret_true _
      refine Sat.read_bind fun v huv hv => Sat.read_bind fun w hvw hw => ?_
      split
      · refine Sat.read_bind fun x hwx hx => ?_
        split
        · refine Sat.modify_bind fun y hxy hy => ⟨hy.frame rfl, ?_⟩
          have hy' : (setTxAsyncLock true y).sendReady cf kind f := by
            have := sendReady_stable (sendReady_stable (sendReady_stable (sendReady_stable
              (sendReady_stable ht' htu) huv) hvw) hwx) hxy
            cases kind <;> exact this
          refine Sat.atomically_bind fun z hyz hz => ?_
          refine ⟨hz.sendData (sendReady_stable hy' hyz), ?_⟩
          split
          · exact Sat.ret_true _
          · exact Sat.modify fun w _ hw => ⟨hw.frame rfl, fun _ _ _ => trivial⟩
        · exact Sat.ret_true _
      · exact Sat.ret_true _
    · exact Sat.ret_true _
  · exact Sat.ret_true _

variable (cf) in
/-- What must hold where `asyncTx` starts. -/
def State.asyncReady (kind : TxKind) (s : State) : Prop :=
  match kind with
  | .data => s.txAtimWait = false
  | .atim => s.awaited = none ∧ ∀ f ∈ s.txPendingAtims.head?, s.slotHolds cf f
  | .beacon => True

theorem sendReady_of_asyncReady {kind : TxKind} {f : SkBuff} {rest : List SkBuff} {s : State}
    (h : s.asyncReady cf kind) (hq : s.queue kind = f :: rest) :
    s.sendReady cf kind (restoreA3 cf kind f) := by
  cases kind with
  | data => exact h
  | atim =>
      have hf : restoreA3 cf .atim f = f := if_neg fun hk => by cases hk.2
      have hhead : f ∈ s.txPendingAtims.head? := by
        rw [show s.txPendingAtims = f :: rest from hq]
        rfl
      rw [hf]
      exact ⟨h.1, h.2 f hhead⟩
  | beacon => trivial

theorem asyncReady_stable (kind : TxKind) {s t : State} (h : s.asyncReady cf kind)
    (hst : (awaitedRely cf).rel s t) : t.asyncReady cf kind := by
  cases kind with
  | data => exact hst.2.1 h
  | atim =>
      obtain ⟨hn, hda, ha3⟩ := hst.2.2.1 h.1
      refine ⟨hn, fun f hf => ?_⟩
      rw [hst.2.2.2] at hf
      obtain ⟨hda', ha3'⟩ := h.2 f hf
      exact ⟨hda.trans hda', fun hmh => ha3.trans (ha3' hmh)⟩
  | beacon => trivial

theorem sat_asyncTx_awaited (kind : TxKind) {s : State} (h : s.asyncReady cf kind) :
    Sat (awaitedRely cf) (asyncTx cf kind) (fun _ _ => True) s := by
  refine Sat.read_bind fun t hst ht => ?_
  split
  · exact Sat.ret_true _
  · refine Sat.read_bind fun u htu hu => ?_
    split
    · exact Sat.ret_true _
    next f rest hq =>
      have hasync := asyncReady_stable kind (asyncReady_stable kind h hst) htu
      have hready := sendReady_of_asyncReady hasync hq
      refine Sat.read_bind fun v huv _ => Sat.read_bind fun w hvw _ =>
        Sat.read_bind fun x hwx _ => ?_
      split
      · exact Sat.ret_true _
      · refine Sat.modify_bind fun y hxy hy => ?_
        have hy' := hy.frame (setQueue_pairing kind (restoreA3 cf kind f :: rest) y)
        refine ⟨hy', ?_⟩
        have hready' : (setQueue kind (restoreA3 cf kind f :: rest) y).sendReady cf kind
            (restoreA3 cf kind f) := by
          have := sendReady_stable (sendReady_stable (sendReady_stable (sendReady_stable
            hready huv) hvw) hwx) hxy
          cases kind <;> exact this
        refine (sat_opTx_awaited kind hready').seq hy' fun _ z hz _ => ?_
        exact Sat.modify fun z _ hz => ⟨hz.frame (setQueue_pairing _ _ z), fun _ _ _ => trivial⟩

/-- Both flags are found clear, one after the other; neither is set in between. -/
theorem sat_notWaiting_awaited (s : State) :
    Sat (awaitedRely cf) notWaiting (fun free t => free = true →
      t.txDataWait = false ∧ t.txAtimWait = false) s := by
  refine Sat.read_bind fun t _ _ => Sat.read_bind fun u htu _ => ?_
  intro v huv _ hfree
  rw [Bool.and_eq_true, Bool.not_eq_true', Bool.not_eq_true'] at hfree
  exact ⟨huv.1 (htu.1 hfree.1), huv.2.1 hfree.2⟩

theorem AwaitedInv.startTxAtimWait {s : State} (h : AwaitedInv cf s)
    (hdata : s.txDataWait = false) (hatim : s.txAtimWait = false) :
    AwaitedInv cf (startTxAtimWait s) where
  one _ := hdata
  awaited n hn := by
    rw [show (Ar9170.startTxAtimWait s).awaited = s.awaited from rfl,
      h.awaited_eq_none hdata hatim] at hn
    cases hn

theorem AwaitedInv.startTxDataWait {s : State} (h : AwaitedInv cf s)
    (hdata : s.txDataWait = false) (hatim : s.txAtimWait = false) :
    AwaitedInv cf (startTxDataWait s) where
  one hw := by
    rw [show (Ar9170.startTxDataWait s).txAtimWait = s.txAtimWait from rfl, hatim] at hw
    cases hw
  awaited n hn := by
    rw [show (Ar9170.startTxDataWait s).awaited = s.awaited from rfl,
      h.awaited_eq_none hdata hatim] at hn
    cases hn

/-- The slot may be written while nothing is awaited. -/
theorem AwaitedInv.of_awaited_eq_none {s t : State} (h : AwaitedInv cf s)
    (hn : t.awaited = none) (hatim : t.txAtimWait = s.txAtimWait)
    (hdata : t.txDataWait = s.txDataWait) : AwaitedInv cf t where
  one := by
    rw [hatim, hdata]
    exact h.one
  awaited n hn' := by
    rw [hn] at hn'
    cases hn'

theorem sat_saveLastAtim_awaited {atim : SkBuff} {rest : List SkBuff} {s : State}
    (hn : s.awaited = none) (hq : s.txPendingAtims = atim :: rest) :
    Sat (awaitedRely cf) (saveLastAtim cf atim) (fun _ t => t.asyncReady cf .atim) s := by
  refine Sat.modify_bind fun t hst ht => ?_
  have hnt := (hst.2.2.1 hn).1
  have hqt := hst.2.2.2.trans hq
  have ht' : AwaitedInv cf (setLastAtimDA atim.addr1 t) := ht.of_awaited_eq_none hnt rfl rfl
  refine ⟨ht', ?_⟩
  split
  next hmh =>
    refine Sat.modify fun u htu hu => ?_
    obtain ⟨hnu, hdau, -⟩ := htu.2.2.1 hnt
    refine ⟨hu.of_awaited_eq_none hnu rfl rfl, fun v huv _ => ?_⟩
    refine asyncReady_stable .atim (s := setLastAtimA3 atim.addr3 u)
      ⟨hnu, fun f hf => ?_⟩ huv
    rw [show (setLastAtimA3 atim.addr3 u).txPendingAtims = atim :: rest from
      htu.2.2.2.trans hqt] at hf
    cases hf
    exact ⟨hdau, fun _ => rfl⟩
  next hmh =>
    intro u htu _
    refine asyncReady_stable .atim (s := setLastAtimDA atim.addr1 t)
      ⟨hnt, fun f hf => ?_⟩ htu
    rw [show (setLastAtimDA atim.addr1 t).txPendingAtims = atim :: rest from hqt] at hf
    cases hf
    exact ⟨rfl, fun h => absurd h hmh⟩

theorem sat_psmAsyncTxMgmt_awaited (s : State) (hs : AwaitedInv cf s) :
    Sat (awaitedRely cf) (psmAsyncTxMgmt cf) (fun _ _ => True) s := by
  refine Sat.seq (J := fun _ _ => True) ?_ hs fun queue t ht _ => ?_
  · exact acts_psmCanSendFirstAtim.sat_true fun f t hf ht => ht.frame (hf.pairing t)
  · split
    · exact Sat.ret_true _
    next atim rest =>
      refine Sat.modify_bind fun u _ hu => ?_
      have hu' := hu.frame (setQueue_pairing .atim (atim :: rest) u)
      refine ⟨hu', ?_⟩
      refine Sat.read_bind fun v huv _ => Sat.read_bind fun w hvw _ => ?_
      split
      next hfree =>
        rw [Bool.and_eq_true, Bool.not_eq_true', Bool.not_eq_true'] at hfree
        refine Sat.modify_bind fun x hwx hx => ?_
        have hdata := hwx.1 (hvw.1 hfree.1)
        have hatim := hwx.2.1 hfree.2
        have hn := hx.awaited_eq_none hdata hatim
        have hq : x.txPendingAtims = atim :: rest :=
          hwx.2.2.2.trans (hvw.2.2.2.trans huv.2.2.2)
        have hx' := hx.startTxAtimWait hdata hatim
        refine ⟨hx', ?_⟩
        refine (sat_saveLastAtim_awaited (s := startTxAtimWait x) hn hq).seq hx'
          fun _ y hy hready => ?_
        refine (sat_asyncTx_awaited .atim hready).seq hy fun _ z _ _ => ?_
        refine Sat.read_bind fun z _ _ => Sat.modify fun z _ hz => ?_
        exact ⟨hz.frame rfl, fun _ _ _ => trivial⟩
      next => exact Sat.ret_true _

theorem sat_psmAsyncTxData_awaited (s : State) :
    Sat (awaitedRely cf) (psmAsyncTxData cf) (fun _ _ => True) s := by
  refine Sat.read_bind fun t _ _ => ?_
  split
  · exact Sat.ret_true _
  · refine Sat.read_bind fun u _ hu => ?_
    split
    · refine (sat_notWaiting_awaited u).seq hu fun free v hv hclear => ?_
      split
      next hfree =>
        refine Sat.seq (J := fun _ t => t.txDataWait = false ∧ t.txAtimWait = false) ?_ hv
          fun queue w hw hclear => ?_
        · have hpick : Acts PickAction psmCanSendFirstPkt :=
            acts_psmCanSendFirstPkt .read (.markSelected _) .takeOut
          refine hpick.sat (fun f t hf ht hc => ?_) (fun t u hc htu => ?_) (hclear hfree)
          · have e := hf.pairing t
            simp only [State.pairing, Prod.mk.injEq] at e
            exact ⟨ht.frame (hf.pairing t), e.2.1.trans hc.1, e.1.trans hc.2⟩
          · exact ⟨htu.1 hc.1, htu.2.1 hc.2⟩
        · split
          · exact Sat.ret_true _
          · refine Sat.modify_bind fun x hwx hx => ?_
            have hatim := hwx.2.1 hclear.2
            refine ⟨hx.startTxDataWait (hwx.1 hclear.1) hatim, ?_⟩
            refine Sat.modify_bind fun y hxy hy => ⟨hy.frame rfl, ?_⟩
            exact sat_asyncTx_awaited .data (hxy.2.1 hatim)
      next => exact Sat.ret_true _
    · exact Sat.ret_true _

theorem sat_schTxSoftBeacon_awaited (s : State) :
    Sat (awaitedRely cf) (schTxSoftBeacon cf) (fun _ _ => True) s := by
  refine Sat.read_bind fun t _ ht => ?_
  split
  · refine Sat.seq (J := fun _ _ => True) ?_ ht fun result u _ _ => ?_
    · refine Sat.read_bind fun u _ hu => ?_
      split
      · exact Sat.ret_true _
      · refine Sat.atomically_bind fun v _ hv => ⟨hv.frame ?_, ?_⟩
        · unfold allocBeaconBuffer
          split <;> rfl
        · split
          · exact Sat.ret_true _
          · exact sat_opTx_awaited .beacon trivial
    · split
      · exact Sat.modify fun v _ hv => ⟨hv.frame rfl, fun _ _ _ => trivial⟩
      · exact Sat.ret_true _
  · exact Sat.ret_true _

theorem sat_call_awaited (cf : Conf) (k : Call) (s : State) (h : AwaitedInv cf s) :
    Sat (awaitedRely cf) ((machine cf).body k) (fun _ _ => True) s := by
  cases k with
  | opScheduler =>
      refine Sat.seq (J := fun _ _ => True) ?_ h fun _ t ht _ => ?_
      · exact Acts.sat_true acts_schEraseNodesCheck fun f t hf ht => ht.frame (hf.pairing t)
      · refine Sat.seq (J := fun _ _ => True) ?_ ht fun _ u hu _ => ?_
        · exact Acts.sat_true acts_schPowersaveCheck fun f t hf ht => ht.frame (hf.pairing t)
        · refine (sat_schAsyncTxCheck (J := fun _ => True) cf (fun _ _ _ _ => trivial)
            (fun s _ _ => (sat_notWaiting_awaited s).mono fun _ _ _ h => ⟨trivial, h⟩)
            (fun s hs _ => sat_psmAsyncTxMgmt_awaited s hs)
            (fun s _ _ => sat_psmAsyncTxData_awaited s)
            (fun s _ _ hW => sat_asyncTx_awaited .data hW.2)
            (fun s _ _ => sat_schTxSoftBeacon_awaited s) trivial).seq hu fun _ v hv _ => ?_
          exact Acts.sat_true (acts_schAsyncRxCheck cf) fun f t hf ht => ht.frame (hf.pairing t)
  | ieee80211OpScheduler =>
      exact Acts.sat_true (acts_ieee80211OpScheduler cf) fun f t hf ht => ht.frame (hf.pairing t)
  | startXmit da nextHop =>
      exact Acts.sat_true (acts_startXmit cf da nextHop) fun f t hf ht => ht.frame (hf.pairing t)

end MainLoop

end Calipso.Ar9170
