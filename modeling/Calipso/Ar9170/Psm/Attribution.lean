import Calipso.Ar9170.Psm.Awaited
import Calipso.Ar9170.Psm.Power

/-!
# Whose destination an ATIM status credits

A successful status of an ATIM frame moves the saved destination to the list of
awake neighbours. It should credit the frame it reports. A status that arrives
late, after PRE-TBTT has cleared the wait flag and the next ATIM frame has set it
again, credits the next frame instead. As long as every status that finds
`tx_atim_wait` set is that of the awaited frame, and the list can take the
addresses, the credit goes to the right frame in every run.
-/

namespace Calipso.Ar9170

open Interrupt

def Obs.isAtimStatus : Obs → Bool
  | .atimStatus _ _ _ _ => true
  | _ => false

/-- The history has grown, without a new ATIM status. -/
structure Extends (s t : State) : Prop where
  sent : s.sent <+: t.sent
  trace : s.trace <:+ t.trace
  statuses : t.trace.filter Obs.isAtimStatus = s.trace.filter Obs.isAtimStatus

theorem Extends.refl (s : State) : Extends s s :=
  ⟨List.prefix_refl _, List.suffix_refl _, rfl⟩

theorem Extends.getElem?_sent {s t : State} (h : Extends s t) {n : Nat} {tr : Transmission}
    (htr : s.sent[n]? = some tr) : t.sent[n]? = some tr := by
  obtain ⟨new, hnew⟩ := h.sent
  rw [← hnew, List.getElem?_append_left (List.getElem?_eq_some_iff.mp htr).1]
  exact htr

theorem Extends.observe {s t : State} {o : Obs} (hsent : t.sent = s.sent)
    (htrace : t.trace = o :: s.trace) (ho : o.isAtimStatus = false) : Extends s t := by
  refine ⟨by rw [hsent], by rw [htrace]; exact List.suffix_cons o _, ?_⟩
  rw [htrace]
  exact List.filter_cons_of_neg (by rw [ho]; decide)

theorem Extends.of_eq {s t : State} (hsent : t.sent = s.sent) (htrace : t.trace = s.trace) :
    Extends s t :=
  ⟨by rw [hsent], by rw [htrace], by rw [htrace]⟩

variable {cf : Conf}

theorem SubmitAction.extends {f : State → State} (hf : SubmitAction f) (s : State) :
    Extends s (f s) := by
  cases hf
  case observe f => exact .observe rfl rfl rfl
  case sendData kind f =>
    unfold Ar9170.sendData
    split
    · exact ⟨List.prefix_append _ _, List.suffix_refl _, rfl⟩
    · exact .refl s
  case allocBeaconBuffer => unfold Ar9170.allocBeaconBuffer; split <;> exact .of_eq rfl rfl
  all_goals exact .of_eq rfl rfl

theorem SendAction.extends {f : State → State} (hf : SendAction f) (s : State) :
    Extends s (f s) := by
  cases hf with
  | submit hf => exact hf.extends s
  | setQueue kind queue => cases kind <;> exact .of_eq rfl rfl

theorem CreateAction.extends {f : State → State} (hf : CreateAction cf f) (s : State) :
    Extends s (f s) := by
  cases hf
  case addAtim => rw [addAtim_eq]; exact .of_eq rfl rfl
  case addData => rw [addData_eq]; exact .of_eq rfl rfl
  all_goals exact .of_eq rfl rfl

theorem PickAction.extends {f : State → State} (hf : PickAction f) (s : State) :
    Extends s (f s) := by
  cases hf
  case markSelected => unfold Ar9170.markSelected; split <;> exact .of_eq rfl rfl
  case pruneAtims => exact .observe rfl rfl rfl
  case takeOut =>
    unfold Ar9170.takeOut
    split
    · exact .of_eq rfl rfl
    · exact .observe rfl rfl rfl
  all_goals exact .of_eq rfl rfl

/-- No code of the main loop handles a status. -/
theorem CodeAction.extends {f : State → State} (hf : CodeAction cf f) (s : State) :
    Extends s (f s) := by
  cases hf with
  | erase hf =>
      cases hf
      case skipErase => unfold Ar9170.skipErase; split <;> exact .of_eq rfl rfl
      case eraseIfEmpty => unfold Ar9170.eraseIfEmpty; split <;> exact .of_eq rfl rfl
      all_goals exact .of_eq rfl rfl
  | power hf =>
      cases hf
      case command hf => cases hf <;> exact .of_eq rfl rfl
      case fallAsleep => exact .observe rfl rfl rfl
  | create hf => exact hf.extends s
  | tx hf =>
      cases hf
      case mgmt hf =>
        cases hf
        case pick hf => exact hf.extends s
        case send hf => exact hf.extends s
        all_goals exact .of_eq rfl rfl
      case handOver => exact .observe rfl rfl rfl
      case startTxDataWait => exact .of_eq rfl rfl
  | rx hf =>
      cases hf
      case create hf => exact hf.extends s
      case storeAwakeNode => exact .observe rfl rfl rfl
      case cutAwakeNodes => exact .of_eq rfl rfl
      all_goals exact .of_eq rfl rfl

variable (cf)

/-- The status of transmission `n` changed the awake list as it should: `n` is an
ATIM frame, and exactly its addresses were added. -/
def creditsItsFrame (sent : List Transmission) (n : Nat) (before after : List MacAddr) : Prop :=
  ∃ tr, sent[n]? = some tr ∧ tr.kind = .atim ∧
    ∀ a, a ∈ after ↔
      a ∈ before ∨ a = tr.frame.addr1 ∨ (cf.psMode = .mhPsm ∧ a = tr.frame.addr3)

/-- Every success that was handled credited the frame it reported. -/
def State.attributed (s : State) : Prop :=
  ∀ n before after, .atimStatus n true before after ∈ s.trace →
    creditsItsFrame cf s.sent n before after

/-- The awake list holds the address or takes it. -/
def canList (list : List MacAddr) (a : MacAddr) (mallocOk : Bool) : Prop :=
  a ∈ list ∨ (mallocOk = true ∧ linkedListHasRoom list psmMaxAwakeNodesListLen true = true)

/-- The awake list can take the saved addresses. In MH-PSM the A3 is left out
when the DA is listed already. -/
def State.canCredit (s : State) (st : TxStatus) : Prop :=
  (cf.psMode = .stdPsm → canList s.wakeNeighbors s.lastAtimDA st.mallocDa) ∧
  (cf.psMode = .mhPsm →
    if s.isRemoteDaAwake s.lastAtimDA then s.lastAtimA3 ∈ s.wakeNeighbors
    else canList s.wakeNeighbors s.lastAtimDA st.mallocDa ∧
      canList (listAwake s.wakeNeighbors s.lastAtimDA st.mallocDa) s.lastAtimA3 st.mallocA3)

instance (list : List MacAddr) (a : MacAddr) (mallocOk : Bool) :
    Decidable (canList list a mallocOk) := inferInstanceAs (Decidable (_ ∨ _))

instance (s : State) (st : TxStatus) : Decidable (s.canCredit cf st) :=
  inferInstanceAs (Decidable ((_ → _) ∧ (_ → _)))

/-- A status that finds an ATIM frame awaited is that of this frame, and its
addresses can be listed. -/
def attributionGuard : Guard State Irq Call where
  irq
    | .txStatus st, s => inTurn st s ∧
        (s.txAtimWait = true → st.success = true → s.canCredit cf st)
    | _, _ => True
  call _ _ := True

instance (s : State) (l : Label Irq Call) : Decidable ((attributionGuard cf).admits s l) :=
  match l with
  | .irq (.txStatus st) => inferInstanceAs (Decidable (inTurn st s ∧
      (s.txAtimWait = true → st.success = true → s.canCredit cf st)))
  | .irq (.preTbtt _) | .irq .timer | .irq .txComp | .irq .bulkOutDone
  | .irq .beaconConfig | .irq (.rxAtim _ _) | .irq (.rxOther _) | .irq (.env _)
  | .main | .call _ => .isTrue trivial

variable {cf}

theorem mem_listAwake_iff {l : List MacAddr} {a b : MacAddr} {ok : Bool}
    (h : canList l a ok) : b ∈ listAwake l a ok ↔ b ∈ l ∨ b = a := by
  refine ⟨mem_listAwake, ?_⟩
  rintro (hb | rfl)
  · exact subset_listAwake _ _ _ hb
  · rcases h with hl | ⟨hok, hroom⟩
    · exact subset_listAwake _ _ _ hl
    · simp [listAwake, hok, linkedListAddTail, hroom]

/-- A success adds the addresses of the frame the slot holds, and nothing else. -/
theorem mem_creditLastAtim {s : State} {st : TxStatus} {atim : SkBuff}
    (hps : cf.confPs = true) (hst : st.success = true) (hslot : s.slotHolds cf atim)
    (hcan : s.canCredit cf st) (a : MacAddr) :
    a ∈ (creditLastAtim cf st s).wakeNeighbors ↔
      a ∈ s.wakeNeighbors ∨ a = atim.addr1 ∨ (cf.psMode = .mhPsm ∧ a = atim.addr3) := by
  obtain ⟨hda, ha3⟩ := hslot
  have hno : ¬ (st.success = false ∧ s.lastAtimDA ≠ MacAddr.broadcast) := by
    rw [hst]
    exact fun h => by cases h.1
  unfold creditLastAtim
  rw [if_neg hno]
  cases hmode : cf.psMode with
  | nullPsm => simp [Conf.confPs, hmode] at hps
  | stdPsm =>
      replace hcan := hcan.1 hmode
      simp only [reduceCtorEq, false_and, or_false]
      split
      next hawake =>
        have hmem : s.lastAtimDA ∈ s.wakeNeighbors := by
          simp only [State.isRemoteDaAwake, Bool.and_eq_true, decide_eq_true_eq] at hawake
          exact hawake.2
        rw [← hda]
        refine ⟨.inl, ?_⟩
        rintro (h | rfl)
        · exact h
        · exact hmem
      next =>
        rw [← hda]
        exact mem_listAwake_iff hcan
  | mhPsm =>
      replace hcan := hcan.2 hmode
      simp only [true_and]
      split
      next hawake =>
        rw [if_pos hawake] at hcan
        have hmem : s.lastAtimDA ∈ s.wakeNeighbors := by
          simp only [State.isRemoteDaAwake, Bool.and_eq_true, decide_eq_true_eq] at hawake
          exact hawake.2
        rw [← hda, ← ha3 hmode]
        refine ⟨.inl, ?_⟩
        rintro (h | rfl | rfl)
        · exact h
        · exact hmem
        · exact hcan
      next hawake =>
        rw [if_neg hawake] at hcan
        rw [← hda, ← ha3 hmode, ← or_assoc]
        exact (mem_listAwake_iff hcan.2).trans
          (or_congr_left (mem_listAwake_iff hcan.1))

theorem State.attributed.extends {s t : State} (h : s.attributed cf) (hst : Extends s t) :
    t.attributed cf := by
  intro n before after hmem
  have hs : .atimStatus n true before after ∈ s.trace.filter Obs.isAtimStatus := by
    rw [← hst.statuses]
    exact List.mem_filter.mpr ⟨hmem, rfl⟩
  obtain ⟨tr, htr, hkind, hiff⟩ := h n before after (List.mem_filter.mp hs).1
  exact ⟨tr, hst.getElem?_sent htr, hkind, hiff⟩

theorem psUpdate_extends (cf : Conf) (s : State) : Extends s (psUpdate cf s) := by
  rcases psUpdate_cases cf s with e | ⟨-, e⟩ | ⟨-, e⟩
  · rw [e]
    exact .refl s
  · rw [e]
    exact .observe rfl rfl rfl
  · rw [e]
    exact .observe rfl rfl rfl

theorem timerFires_extends {s s' : State} (h : timerFires cf s = some s') : Extends s s' := by
  unfold timerFires at h
  obtain ⟨callback, -, rfl⟩ := Option.map_eq_some_iff.mp h
  cases callback with
  | atimWindowStart => exact .of_eq rfl rfl
  | atimWindowEnd =>
      simp only [psmAtimWindowEnd]
      split
      · exact .of_eq rfl rfl
      · have hend := psUpdate_extends cf { s with timer := none, psmState := .txWindow }
        exact ⟨hend.sent, hend.trace, hend.statuses⟩
  | softBeaconTx =>
      simp only [psmSoftBeaconTx]
      split <;> exact .of_eq rfl rfl

theorem settle_extends {s t : State} (h : Extends s t) : Extends s t.settle := by
  unfold State.settle
  split
  · exact h
  · exact ⟨h.sent, h.trace, h.statuses⟩

theorem rspPreTbtt_extends (rfOn : Bool) (s : State) : Extends s (rspPreTbtt cf rfOn s) := by
  unfold rspPreTbtt
  split
  · unfold handlePs
    split
    · exact .of_eq rfl rfl
    · split
      · exact .of_eq rfl rfl
      · split <;> exact .of_eq rfl rfl
  · exact .of_eq rfl rfl
  · split <;> exact settle_extends (.of_eq rfl rfl)

/-- Only a status response adds an observation of a status. -/
theorem irq_extends {i : Irq} {s s' : State} (hi : ∀ st, i ≠ .txStatus st)
    (h : irq cf i s = some s') : Extends s s' := by
  cases i with
  | preTbtt rfOn => cases h; exact rspPreTbtt_extends rfOn s
  | timer => exact timerFires_extends h
  | txStatus st => exact absurd rfl (hi st)
  | txComp =>
      cases h
      unfold txCompUnlock
      split <;> exact .of_eq rfl rfl
  | bulkOutDone => cases h; exact .of_eq rfl rfl
  | beaconConfig =>
      cases h
      unfold rspBeaconConfig
      split <;> exact .of_eq rfl rfl
  | rxAtim mgmt ok =>
      cases h
      unfold scheduleHandleMpdu
      split <;> exact .of_eq rfl rfl
  | rxOther ok =>
      cases h
      unfold scheduleHandleMpdu
      split <;> exact .of_eq rfl rfl
  | env e => cases h; exact .of_eq rfl rfl

theorem creditLastAtim_history (cf : Conf) (st : TxStatus) (s : State) :
    (creditLastAtim cf st s).sent = s.sent ∧ (creditLastAtim cf st s).trace = s.trace := by
  rw [creditLastAtim_eq]
  exact ⟨rfl, rfl⟩

/-- A status is handled as one of an ATIM frame when `tx_atim_wait` is set. -/
theorem txStatus_cases (cf : Conf) (st : TxStatus) (s : State) :
    Extends s (txStatus cf st s) ∨
    (s.txAtimWait = true ∧ cf.confPs = true ∧ (txStatus cf st s).sent = s.sent ∧
      (txStatus cf st s).trace = .atimStatus st.n st.success s.wakeNeighbors
        (creditLastAtim cf st (releaseTxAtimWait s)).wakeNeighbors :: s.trace) := by
  unfold txStatus
  split
  · exact .inl (.of_eq rfl rfl)
  · split
    next hatim =>
      split
      next hps =>
        have hh := creditLastAtim_history cf st (releaseTxAtimWait s)
        refine .inr ⟨hatim, hps, ?_, ?_⟩
        · unfold State.settle
          split <;> exact hh.1
        · unfold State.settle
          split <;> exact congrArg _ hh.2
      next => exact .inl (.refl s)
    next => exact .inl (settle_extends (.of_eq rfl rfl))

variable (cf) in
/-- Both invariants; the main loop only has to keep the pairing. -/
def attributionRely : Rely State :=
  (awaitedRely cf).and ⟨fun s => s.attributed cf, fun _ _ => True, fun _ => trivial,
    fun _ _ => trivial⟩

theorem attributionInv_irq (i : Irq) (s s' : State) (h : (attributionRely cf).inv s)
    (hG : (attributionGuard cf).irq i s) (hi : irq cf i s = some s') :
    (attributionRely cf).inv s' ∧ (attributionRely cf).rel s s' := by
  have hturn : ∀ st, i = .txStatus st → inTurn st s := by
    rintro st rfl
    exact hG.1
  have haw := awaitedInv_irq i s s' h.1 hturn hi
  refine ⟨⟨haw.1, ?_⟩, haw.2, trivial⟩
  by_cases hst : ∃ st, i = .txStatus st
  · obtain ⟨st, rfl⟩ := hst
    obtain ⟨-, rfl⟩ := irq_txStatus_eq_some hi
    obtain hext | ⟨hatim, hps, hsent, htrace⟩ :=
      txStatus_cases cf st { s with reported := st.n :: s.reported }
    · exact h.2.extends ⟨hext.sent, hext.trace, hext.statuses⟩
    · intro n before after hmem
      rw [show (txProcessStatus cf st s).sent = s.sent from hsent]
      rw [show (txProcessStatus cf st s).trace = _ from htrace] at hmem
      rcases List.mem_cons.mp hmem with heq | hold
      · simp only [Obs.atimStatus.injEq] at heq
        obtain ⟨rfl, hst, rfl, rfl⟩ := heq
        obtain ⟨tr, htr, hkind, hslot⟩ := h.1.awaited_atim (hG.1 hatim) hatim
        exact ⟨tr, htr, hkind, mem_creditLastAtim hps hst.symm hslot (hG.2 hatim hst.symm)⟩
      · exact h.2 n before after hold
  · exact h.2.extends (irq_extends (fun st hst' => hst ⟨st, hst'⟩) hi)

theorem sat_call_attribution (k : Call) (s : State) (h : (attributionRely cf).inv s) :
    Sat (attributionRely cf) ((machine cf).body k) (fun _ _ => True) s := by
  have haw := sat_call_awaited cf k s h.1
  refine (Sat.and haw (Acts.sat_true (acts_body cf k) fun f t hf ht => ?_)).mono
    fun _ _ _ _ => trivial
  exact State.attributed.extends ht (hf.extends t)

/-- While every status that finds an ATIM frame awaited is that of this frame,
each success credits the frame it reports, in every run. -/
theorem attributed_of_run {c : Config State} {ls : List (Label Irq Call)}
    (h : (machine cf).Run (attributionGuard cf) (.idle .init) ls c) : c.state.attributed cf := by
  have hinit : (attributionRely cf).inv .init :=
    ⟨awaitedInv_of_clear rfl rfl, fun n before after hmem => by cases hmem⟩
  exact (h.inv (r := attributionRely cf) attributionInv_irq
    (fun k s hs _ => sat_call_attribution k s hs) hinit).2

/-- A packet is announced, and the ATIM frame is acknowledged in its window. -/
def atimAcknowledged : List (Label Irq Call) :=
  [.irq (.preTbtt true)] ++ callFor (.startXmit 0xa 0xa) 1 ++ callFor .ieee80211OpScheduler 5 ++
    callFor .opScheduler 13 ++ [.irq .timer] ++ callFor .opScheduler 36 ++
    [.irq (.txStatus ⟨0, true, true, true⟩)]

theorem attributed_of_run_atimAcknowledged :
    ∃ c, (machine .std).Run (attributionGuard .std) (.idle .init) atimAcknowledged c ∧
      c.state.wakeNeighbors = [0xa] ∧ c.state.attributed .std := by
  obtain ⟨c, hrun, hlist⟩ := Machine.exists_run_of_exec (machine .std) (attributionGuard .std)
    (.idle .init) atimAcknowledged
    (fun s => s.wakeNeighbors = [0xa]) (by decide) (by decide)
  exact ⟨c, hrun, hlist, attributed_of_run hrun⟩

/-- The status of the ATIM frame to `0xa` arrives one interval late, when the
ATIM frame to `0xb1` is on its way. -/
def atimStatusLate : List (Label Irq Call) :=
  [.irq (.preTbtt true)] ++ callFor (.startXmit 0xa 0xa) 1 ++ callFor (.startXmit 0xb1 0xb1) 1 ++
    callFor .ieee80211OpScheduler 7 ++ [.irq .timer] ++ callFor .opScheduler 38 ++
    [.irq .bulkOutDone, .irq (.preTbtt true)] ++ callFor .ieee80211OpScheduler 6 ++
    [.irq .timer] ++ callFor .opScheduler 38 ++ [.irq (.txStatus ⟨0, true, true, true⟩)]

theorem not_attributed_atimStatusLate :
    ∃ c, (machine .std).Run .any (.idle .init) atimStatusLate c ∧
      (c.state.sent[0]?).map (fun tr => tr.frame.addr1) = some 0xa ∧
      .atimStatus 0 true [] [0xb1] ∈ c.state.trace ∧ ¬ c.state.attributed .std := by
  obtain ⟨c, hrun, hsent, htrace⟩ := Machine.exists_run_of_exec (machine .std) rfOnGuard
    (.idle .init) atimStatusLate
    (fun s => (s.sent[0]?).map (fun tr => tr.frame.addr1) = some 0xa ∧
      .atimStatus 0 true [] [0xb1] ∈ s.trace) (by decide) (by decide)
  refine ⟨c, hrun.of_any, hsent, htrace, fun hattr => ?_⟩
  obtain ⟨tr, htr, -, hiff⟩ := hattr 0 [] [0xb1] htrace
  have haddr : tr.frame.addr1 = 0xa := by
    rw [htr] at hsent
    exact Option.some.inj hsent
  have hmem := (hiff tr.frame.addr1).mpr (.inr (.inl rfl))
  rw [haddr] at hmem
  exact absurd hmem (by decide)

end Calipso.Ar9170
