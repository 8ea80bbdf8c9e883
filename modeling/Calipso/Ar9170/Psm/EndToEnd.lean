import Calipso.Ar9170.Psm.Handover

/-!
# Which ATIM frames are dropped

In MH-PSM an ATIM frame announces the final destination of a packet, which its
third address names, and goes to the next hop on the way there.
`ieee80211_psm_can_send_first_atim` drops the frames at the front of the queue
whose next hops are awake, although the frames were created for their final
destinations and a forwarded frame is redundant when its final destination is
awake. So an announcement gets lost when its next hop is awake on account of
another one. As long as the destinations of the frames in question are awake
whenever their next hops are, no announcement is lost in any run.
-/

namespace Calipso.Ar9170

open Interrupt

section Dropped

/-- The frames in front of the first one whose next hop is not listed. -/
def droppable (awake : List MacAddr) (atims : List SkBuff) : List SkBuff :=
  atims.takeWhile fun atim => decide (atim.addr1 ∈ awake)

/-- The frames that can be dropped announce listed destinations. -/
def redundant (awake : List MacAddr) (atims : List SkBuff) : Prop :=
  ∀ atim ∈ droppable awake atims, atim.addr3 ∈ awake

instance (awake : List MacAddr) (atims : List SkBuff) : Decidable (redundant awake atims) :=
  inferInstanceAs (Decidable (∀ atim ∈ droppable awake atims, _))

/-- Every frame dropped so far announced a destination that was listed then. -/
def State.droppedRedundant (s : State) : Prop :=
  ∀ dropped awake, .atimsPruned dropped awake ∈ s.trace → ∀ atim ∈ dropped, atim.addr3 ∈ awake

/-- An ATIM frame is in its queue until it is passed to `ar9170_op_tx` or its
destination is listed. -/
def State.announcedEndToEnd (s : State) : Prop :=
  ∀ atim ∈ s.queuedAtims, atim ∈ s.txPendingAtims ∨ .opTx atim ∈ s.trace ∨
    ∃ dropped awake, .atimsPruned dropped awake ∈ s.trace ∧ atim ∈ dropped ∧ atim.addr3 ∈ awake

/-- The awake list decides rightly about the queue. -/
def State.decidesRightly (s : State) : Prop :=
  redundant s.wakeNeighbors s.txPendingAtims

instance (s : State) : Decidable s.decidesRightly := inferInstanceAs (Decidable (redundant _ _))

/-- The list decides rightly where a frame can be dropped. -/
def State.windowReady (s : State) : Prop :=
  s.psmState = .atimWindow → s.decidesRightly

/-- Nothing can be dropped while the list is empty. -/
theorem redundant_nil (atims : List SkBuff) : redundant [] atims := by
  cases atims <;> simp [redundant, droppable]

/-- Frames whose next hops are listed are the first that can be dropped. -/
theorem droppable_append {awake : List MacAddr} {front rest : List SkBuff}
    (hfront : ∀ atim ∈ front, atim.addr1 ∈ awake) :
    droppable awake (front ++ rest) = front ++ droppable awake rest :=
  List.takeWhile_append_of_pos fun atim hatim => decide_eq_true (hfront atim hatim)

end Dropped

section History

def Obs.isPrune : Obs → Bool
  | .atimsPruned _ _ => true
  | _ => false

/-- No frames were dropped on the way from `s` to `t`. -/
def DropsNone (s t : State) : Prop :=
  ∀ o ∈ t.trace, o.isPrune = true → o ∈ s.trace

theorem DropsNone.of_eq {s t : State} (ht : t.trace = s.trace) : DropsNone s t := by
  intro o ho _
  rwa [ht] at ho

theorem DropsNone.observe {s t : State} {o : Obs} (ht : t.trace = o :: s.trace)
    (ho : o.isPrune = false) : DropsNone s t := by
  intro p hp hprune
  rw [ht] at hp
  rcases List.mem_cons.mp hp with rfl | hp
  · rw [ho] at hprune
    cases hprune
  · exact hp

theorem State.droppedRedundant.mono {s t : State} (h : s.droppedRedundant)
    (hst : DropsNone s t) : t.droppedRedundant :=
  fun dropped awake hmem => h dropped awake (hst _ hmem rfl)

theorem EraseAction.dropsNone {f : State → State} (hf : EraseAction f) (s : State) :
    DropsNone s (f s) := by
  cases hf
  case skipErase => unfold Ar9170.skipErase; split <;> exact .of_eq rfl
  case eraseIfEmpty => unfold Ar9170.eraseIfEmpty; split <;> exact .of_eq rfl
  all_goals exact .of_eq rfl

theorem PowerAction.dropsNone {f : State → State} (hf : PowerAction f) (s : State) :
    DropsNone s (f s) := by
  cases hf with
  | command hf => cases hf <;> exact .of_eq rfl
  | fallAsleep => exact .observe rfl rfl

theorem SendAction.dropsNone {f : State → State} (hf : SendAction f) (s : State) :
    DropsNone s (f s) := by
  cases hf with
  | submit hf =>
      cases hf
      case observe => exact .observe rfl rfl
      case sendData => unfold Ar9170.sendData; split <;> exact .of_eq rfl
      case allocBeaconBuffer => unfold Ar9170.allocBeaconBuffer; split <;> exact .of_eq rfl
      all_goals exact .of_eq rfl
  | setQueue kind queue => cases kind <;> exact .of_eq rfl

variable {cf : Conf}

theorem RxAction.dropsNone {f : State → State} (hf : RxAction cf f) (s : State) :
    DropsNone s (f s) := by
  cases hf with
  | create hf =>
      cases hf
      case addAtim => rw [addAtim_eq]; exact .of_eq rfl
      case addData => rw [addData_eq]; exact .of_eq rfl
      all_goals exact .of_eq rfl
  | storeAwakeNode => exact .observe rfl rfl
  | cutAwakeNodes => exact .of_eq rfl
  | setOffOverride => exact .of_eq rfl
  | dropRxHead => exact .of_eq rfl

theorem dropsNone_markSelected (selecting : Bool) (s : State) :
    DropsNone s (markSelected selecting s) := by
  unfold markSelected
  split <;> exact .of_eq rfl

theorem dropsNone_takeOut (queue : List SkBuff) (i : Nat) (s : State) :
    DropsNone s (takeOut queue i s) := by
  unfold takeOut
  split
  · exact .of_eq rfl
  · exact .observe rfl rfl

/-- The data branch drops no ATIM frame. -/
theorem acts_psmAsyncTxData_dropsNone :
    Acts (fun f => ∀ s, DropsNone s (f s)) (psmAsyncTxData cf) :=
  acts_psmAsyncTxData cf (fun _ => .of_eq rfl) (dropsNone_markSelected true) dropsNone_takeOut
    (fun _ => .of_eq rfl) (fun _ _ _ => .observe rfl rfl) fun _ hf => hf.dropsNone

/-- What an interrupt other than a status does: the awake list stays as it is, no
frame is dropped, and only the timer opens the ATIM window. -/
structure LeavesList (i : Irq) (s t : State) : Prop where
  awake : t.wakeNeighbors = s.wakeNeighbors
  drops : DropsNone s t
  window : t.psmState = .atimWindow → s.psmState = .atimWindow ∨
    (i = .timer ∧ s.timer = some .atimWindowStart ∧ s.psmState = .preTbtt)

theorem LeavesList.of_eq {i : Irq} {s t : State} (hwake : t.wakeNeighbors = s.wakeNeighbors)
    (htrace : t.trace = s.trace) (hpsm : t.psmState = .atimWindow → s.psmState = .atimWindow) :
    LeavesList i s t :=
  ⟨hwake, .of_eq htrace, fun h => .inl (hpsm h)⟩

theorem leavesList_timer {s t : State} (h : timerFires cf s = some t) :
    LeavesList .timer s t := by
  simp only [timerFires] at h
  obtain ⟨callback, htimer, rfl⟩ := Option.map_eq_some_iff.mp h
  cases callback with
  | atimWindowStart =>
      refine ⟨rfl, .of_eq rfl, fun hpsm => ?_⟩
      by_cases hpre : s.psmState = .preTbtt
      · exact .inr ⟨rfl, htimer, hpre⟩
      · left
        simpa [psmAtimWindowStart, hpre] using hpsm
  | atimWindowEnd =>
      simp only [psmAtimWindowEnd]
      split
      · exact .of_eq rfl rfl fun h => by cases h
      · rcases psUpdate_cases cf { s with timer := none, psmState := .txWindow }
          with e | ⟨-, e⟩ | ⟨-, e⟩
        · rw [e]
          exact .of_eq rfl rfl fun h => by cases h
        · rw [e]
          exact ⟨rfl, .observe rfl rfl, fun h => by cases h⟩
        · rw [e]
          exact ⟨rfl, .observe rfl rfl, fun h => by cases h⟩
  | softBeaconTx =>
      simp only [psmSoftBeaconTx]
      split <;> exact .of_eq rfl rfl id

theorem leavesList_rspPreTbtt (rfOn : Bool) (s : State) :
    LeavesList (.preTbtt rfOn) s (rspPreTbtt cf rfOn s) := by
  unfold rspPreTbtt
  split
  · unfold handlePs
    split
    · exact .of_eq rfl rfl id
    · split
      · exact .of_eq rfl rfl id
      · split <;> exact .of_eq rfl rfl id
  · exact .of_eq rfl rfl id
  · unfold clearWaitFlags
    rw [settle_eq]
    split
    · exact .of_eq rfl rfl fun h => by cases h
    · exact .of_eq rfl rfl id

theorem irq_leavesList {i : Irq} {s s' : State} (hi : irq cf i s = some s')
    (hst : ∀ st, i ≠ .txStatus st) : LeavesList i s s' := by
  cases i with
  | preTbtt rfOn => cases hi; exact leavesList_rspPreTbtt rfOn s
  | timer => exact leavesList_timer hi
  | txStatus st => exact absurd rfl (hst st)
  | txComp =>
      cases hi
      unfold txCompUnlock
      split <;> exact .of_eq rfl rfl id
  | bulkOutDone => cases hi; exact .of_eq rfl rfl id
  | beaconConfig =>
      cases hi
      unfold rspBeaconConfig
      split <;> exact .of_eq rfl rfl id
  | rxAtim mgmt ok =>
      cases hi
      unfold scheduleHandleMpdu
      split <;> exact .of_eq rfl rfl id
  | rxOther ok =>
      cases hi
      unfold scheduleHandleMpdu
      split <;> exact .of_eq rfl rfl id
  | env e => cases hi; exact .of_eq rfl rfl id

/-- The awake list a status leaves. -/
theorem creditLastAtim_wakeNeighbors (st : TxStatus) (s : State) :
    (creditLastAtim cf st s).wakeNeighbors =
      if (st.success = false ∧ s.lastAtimDA ≠ MacAddr.broadcast) ∨ cf.psMode = .nullPsm ∨
          s.isRemoteDaAwake s.lastAtimDA = true then s.wakeNeighbors
      else
        let awake := listAwake s.wakeNeighbors s.lastAtimDA st.mallocDa
        if cf.psMode = .mhPsm then listAwake awake s.lastAtimA3 st.mallocA3 else awake := by
  unfold creditLastAtim
  by_cases hfail : st.success = false ∧ s.lastAtimDA ≠ MacAddr.broadcast
  · rw [if_pos hfail, if_pos (.inl hfail)]
  · rw [if_neg hfail]
    cases hmode : cf.psMode <;> cases hawake : s.isRemoteDaAwake s.lastAtimDA <;>
      simp [hfail, addLastAtimDA, addLastAtimA3]

/-- A status changes the awake list only if it is taken for that of an ATIM
frame. -/
theorem txProcessStatus_list (cf : Conf) (st : TxStatus) (s : State) :
    (txProcessStatus cf st s).psmState = s.psmState ∧ DropsNone s (txProcessStatus cf st s) ∧
    ((txProcessStatus cf st s).wakeNeighbors = s.wakeNeighbors ∨
      s.txAtimWait = true ∧
        (txProcessStatus cf st s).wakeNeighbors = (creditLastAtim cf st s).wakeNeighbors) := by
  unfold txProcessStatus txStatus
  split
  · exact ⟨rfl, .of_eq rfl, .inl rfl⟩
  · split
    next hatim =>
      split
      · have e := creditLastAtim_eq cf st
          (releaseTxAtimWait { s with reported := st.n :: s.reported })
        obtain ⟨hwake, htrace⟩ := handleATIMStatusRsp_lists cf st
          (releaseTxAtimWait { s with reported := st.n :: s.reported })
        refine ⟨?_, .observe htrace rfl, .inr ⟨hatim, ?_⟩⟩
        · rw [settle_eq]
          exact (congrArg State.psmState e :)
        · rw [hwake, creditLastAtim_wakeNeighbors, creditLastAtim_wakeNeighbors]
          rfl
      · exact ⟨rfl, .of_eq rfl, .inl rfl⟩
    next =>
      rw [settle_eq]
      exact ⟨rfl, .of_eq rfl, .inl rfl⟩

end History

section Uninterrupted

end Uninterrupted

section Created

variable {cf : Conf}

end Created

section Guarded

/-- The awake list decides rightly about the queue when the ATIM window starts and
when the scheduler is called in it, and the status of an ATIM frame does not change
that. -/
def endToEndGuard (cf : Conf) : Guard State Irq Call where
  irq
    | .timer, s => s.timer = some .atimWindowStart → s.psmState = .preTbtt → s.decidesRightly
    | .txStatus st, s => s.txAtimWait = true → s.decidesRightly →
        redundant (creditLastAtim cf st s).wakeNeighbors s.txPendingAtims
    | _, _ => True
  call
    | .opScheduler, s => s.windowReady
    | _, _ => True

instance (s : State) : Decidable s.windowReady := inferInstanceAs (Decidable (_ → _))

instance (cf : Conf) (s : State) (l : Label Irq Call) :
    Decidable ((endToEndGuard cf).admits s l) :=
  match l with
  | .irq .timer => inferInstanceAs (Decidable (_ → _ → s.decidesRightly))
  | .irq (.txStatus _) => inferInstanceAs (Decidable (_ → s.decidesRightly → redundant _ _))
  | .call .opScheduler => inferInstanceAs (Decidable s.windowReady)
  | .irq (.preTbtt _) | .irq .txComp | .irq .bulkOutDone | .irq .beaconConfig
  | .irq (.rxAtim _ _) | .irq (.rxOther _) | .irq (.env _) | .main
  | .call .ieee80211OpScheduler | .call (.startXmit _ _) => .isTrue trivial

/-- The rely of the main loop: interrupts leave the queue alone and add to the
awake list, and it goes on deciding rightly. -/
def endToEndRely : Rely State where
  inv := State.droppedRedundant
  rel s t := t.txPendingAtims = s.txPendingAtims ∧ s.wakeNeighbors ⊆ t.wakeNeighbors ∧
    (s.decidesRightly → t.decidesRightly) ∧ (s.windowReady → t.windowReady)
  refl _ := ⟨rfl, List.Subset.refl _, id, id⟩
  trans h h' := ⟨h'.1.trans h.1, List.Subset.trans h.2.1 h'.2.1, h'.2.2.1 ∘ h.2.2.1,
    h'.2.2.2 ∘ h.2.2.2⟩

variable {cf : Conf}

theorem endToEnd_irq (i : Irq) (s s' : State) (h : s.droppedRedundant)
    (hG : (endToEndGuard cf).irq i s) (hi : irq cf i s = some s') :
    s'.droppedRedundant ∧ endToEndRely.rel s s' := by
  have hhand := irq_handover hi
  have hqueue : s'.txPendingAtims = s.txPendingAtims := hhand.1 .atim
  by_cases hst : ∃ st, i = .txStatus st
  · obtain ⟨st, rfl⟩ := hst
    obtain ⟨-, rfl⟩ := irq_txStatus_eq_some hi
    obtain ⟨hpsm, hdrops, hlist⟩ := txProcessStatus_list cf st s
    have hright : s.decidesRightly → (txProcessStatus cf st s).decidesRightly := by
      intro hs
      unfold State.decidesRightly
      rw [hqueue]
      rcases hlist with hsame | ⟨hwait, hlist⟩
      · rw [hsame]
        exact hs
      · rw [hlist]
        exact hG hwait hs
    refine ⟨h.mono hdrops, hqueue, hhand.2.2.2, hright, fun hs hwindow => ?_⟩
    rw [hpsm] at hwindow
    exact hright (hs hwindow)
  · have hl := irq_leavesList hi fun st e => hst ⟨st, e⟩
    have hright : s.decidesRightly → s'.decidesRightly := by
      intro hs
      unfold State.decidesRightly
      rw [hqueue, hl.awake]
      exact hs
    refine ⟨h.mono hl.drops, hqueue, hhand.2.2.2, hright, fun hs hwindow => ?_⟩
    rcases hl.window hwindow with hold | ⟨rfl, htimer, hpre⟩
    · exact hright (hs hold)
    · exact hright (hG htimer hpre)

/-- What is dropped is at the front, where the list decides rightly; and it does so
about the rest. -/
theorem endToEnd_pruneAtims {pruned rest : List SkBuff} {s : State}
    (h : s.droppedRedundant) (hs : s.decidesRightly)
    (hsplit : s.txPendingAtims = pruned ++ rest)
    (hawake : ∀ f ∈ pruned, f.addr1 ∈ s.wakeNeighbors) :
    (pruneAtims pruned rest s).droppedRedundant ∧ (pruneAtims pruned rest s).decidesRightly := by
  unfold State.decidesRightly redundant at hs
  rw [hsplit, droppable_append hawake] at hs
  constructor
  · intro dropped awake hmem atim hatim
    rcases List.mem_cons.mp hmem with heq | hold
    · cases heq
      exact hs atim (List.mem_append_left _ hatim)
    · exact h dropped awake hold atim hatim
  · intro atim hatim
    exact hs atim (List.mem_append_right _ hatim)

theorem sat_psmAsyncTxMgmt_endToEnd {s : State} (hinv : s.droppedRedundant)
    (hs : s.decidesRightly) :
    Sat endToEndRely (psmAsyncTxMgmt cf) (fun _ _ => True) s := by
  have hprune : Sat endToEndRely psmCanSendFirstAtim
      (fun found t => t.decidesRightly ∧ (found ≠ [] → t.txPendingAtims = found)) s :=
    sat_psmCanSendFirstAtim (r := endToEndRely) (fun _ _ hst => hst.2.1) (fun _ _ hst => hst.1)
      (fun _ _ ht htu => htu.2.2.1 ht) (fun _ _ _ ht hK => endToEnd_pruneAtims ht hK) hs
  refine hprune.seq hinv fun found t ht _ => ?_
  -- nothing is dropped behind the pruning
  have hrest : ∀ {p : Prog State Unit}, Acts (fun f => ∀ s, DropsNone s (f s)) p →
      Sat endToEndRely p (fun _ _ => True) t :=
    fun hp => hp.sat_true fun f u hf hu => hu.mono (hf u)
  split
  · exact Sat.ret_true _
  next atim rest _ =>
    refine hrest (.bind (.modify fun _ => .of_eq rfl) fun _ => ?_)
    refine .bind (acts_notWaiting fun _ => .of_eq rfl) fun free => ?_
    split
    · refine .bind (.modify fun _ => .of_eq rfl) fun _ => ?_
      refine .bind (acts_saveLastAtim cf (fun _ _ => DropsNone.of_eq rfl)
        (fun _ _ => DropsNone.of_eq rfl) atim)
        fun _ => ?_
      refine .bind ((acts_asyncTx cf .atim).mono fun _ hf => hf.dropsNone) fun _ => ?_
      exact .bind (.read fun _ => .of_eq rfl) fun _ => .modify fun _ => .of_eq rfl
    · exact .ret _

theorem EraseAction.windowReady {f : State → State} (hf : EraseAction f) {s : State}
    (hs : s.windowReady) : (f s).windowReady := by
  cases hf with
  | read => exact hs
  | beginErase => exact hs
  | skipErase => unfold Ar9170.skipErase; split <;> exact hs
  | eraseIfEmpty => unfold Ar9170.eraseIfEmpty; split <;> exact hs
  | eraseWakeNeighbors => exact fun _ => redundant_nil _

theorem PowerAction.windowReady {f : State → State} (hf : PowerAction f) {s : State}
    (hs : s.windowReady) : (f s).windowReady := by
  cases hf with
  | command hf => cases hf <;> exact hs
  | fallAsleep => exact hs

/-- The list decides rightly when the scheduler is called, and still does when the
queue is pruned. -/
theorem sat_opScheduler_endToEnd {s : State} (hinv : s.droppedRedundant)
    (hs : s.windowReady) : Sat endToEndRely (opScheduler cf) (fun _ _ => True) s := by
  have hready : ∀ t u, State.windowReady t → endToEndRely.rel t u → State.windowReady u :=
    fun _ _ ht htu => htu.2.2.2 ht
  have hkeep : ∀ {p : Prog State Unit} {t : State},
      Acts (fun f => ∀ s, DropsNone s (f s)) p → Sat endToEndRely p (fun _ _ => True) t :=
    fun hp => hp.sat_true fun f u hf hu => hu.mono (hf u)
  refine Sat.seq (J := fun _ t => t.windowReady) ?_ hinv fun _ t ht hready_t => ?_
  · exact acts_schEraseNodesCheck.sat
      (fun f t hf ht hready_t => ⟨ht.mono (hf.dropsNone t), hf.windowReady hready_t⟩) hready hs
  · refine Sat.seq (J := fun _ u => u.windowReady) ?_ ht fun _ u hu hready_u => ?_
    · exact acts_schPowersaveCheck.sat
        (fun f u hf hu hready_u => ⟨hu.mono (hf.dropsNone u), hf.windowReady hready_u⟩) hready
        hready_t
    · refine Sat.seq (J := fun _ _ => True) ?_ hu fun _ v hv _ => ?_
      · refine sat_schAsyncTxCheck_branches (J := State.windowReady) (A := State.decidesRightly)
          (W := fun _ => True) (Q := fun _ => True) cf hready (fun _ _ ht htu => htu.2.2.1 ht)
          (fun _ _ => trivial) (fun _ _ ht => ht) (fun v hv hready_v => ?_)
          (fun v hv _ hright => sat_psmAsyncTxMgmt_endToEnd hv hright)
          (fun v _ _ => hkeep acts_psmAsyncTxData_dropsNone)
          (fun v _ _ _ => hkeep ((acts_asyncTx cf .data).mono fun _ hf => hf.dropsNone))
          (fun v _ _ => hkeep ((acts_schTxSoftBeacon cf).mono fun _ hf =>
            (SendAction.submit hf).dropsNone)) hready_u
        exact ((acts_notWaiting (P := (· = id)) rfl).sat_reads hready hready_v).mono
          fun _ _ _ ht => ⟨ht, fun _ => trivial⟩
      · exact hkeep ((acts_schAsyncRxCheck cf).mono fun _ hf => hf.dropsNone)

theorem sat_call_endToEnd (k : Call) (s : State) (h : s.droppedRedundant)
    (hG : (endToEndGuard cf).call k s) :
    Sat endToEndRely ((machine cf).body k) (fun _ _ => True) s := by
  have hcreate : ∀ {p : Prog State Unit}, Acts (CreateAction cf) p →
      Sat endToEndRely p (fun _ _ => True) s :=
    fun hp => hp.sat_true fun f u hf hu => hu.mono ((RxAction.create hf).dropsNone u)
  cases k with
  | opScheduler => exact sat_opScheduler_endToEnd h hG
  | ieee80211OpScheduler => exact hcreate (acts_ieee80211OpScheduler cf)
  | startXmit da nextHop => exact hcreate (acts_startXmit cf da nextHop)

/-- A station in multi-hop power-save mode, for concrete runs. -/
def Conf.multiHop : Conf := { Conf.std with psMode := .mhPsm }

/-- Two packets are announced, and the first ATIM frame is acknowledged. Then the
scheduler drops the second one. -/
def secondDropped (da nextHop da' nextHop' : MacAddr) : List (Label Irq Call) :=
  [.irq (.preTbtt true)] ++ callFor (.startXmit da nextHop) 1 ++
    callFor (.startXmit da' nextHop') 1 ++ callFor .ieee80211OpScheduler 7 ++
    callFor .opScheduler 13 ++ [.irq .timer] ++ callFor .opScheduler 37 ++
    [.irq .bulkOutDone, .irq (.txStatus ⟨0, true, true, true⟩)] ++ callFor .opScheduler 17

end Guarded

end Calipso.Ar9170
