import Calipso.Ar9170.Psm.Attribution

/-!
# Data frames go to announced stations only

A data frame may be handed over only when its receiver took part in an ATIM
exchange of the running beacon interval. The list of awake neighbours says so as
long as it is erased in each PRE-TBTT window. The erase is left to the scheduler:
where the ATIM window starts before the scheduler has run, the list of the last
interval stays and licenses frames. Two shorter windows do the same, a PRE-TBTT
between the last look at the list and the hand-over, and a PRE-TBTT that leaves
an ATIM frame of the last interval in the receive queue.
-/

namespace Calipso.Ar9170

open Interrupt

variable (cf : Conf)

/-- Station `a` took part in an ATIM exchange of interval `k`: its ATIM frame was
received, or the ATIM frame sent to it was acknowledged. A broadcast ATIM frame
needs no acknowledgement. -/
def exchangedIn (sent : List Transmission) (trace : List Obs) (k : Nat) (a : MacAddr) : Prop :=
  .atimReceived a k ∈ trace ∨
  ∃ n success before after tr, .atimStatus n success before after ∈ trace ∧
    sent[n]? = some tr ∧ tr.kind = .atim ∧ tr.interval = k ∧
    (success = true ∨ tr.frame.addr1 = MacAddr.broadcast) ∧
    (a = tr.frame.addr1 ∨ (cf.psMode = .mhPsm ∧ a = tr.frame.addr3))

/-- Station `a` took part in an ATIM exchange of the running interval. -/
def State.exchanged (s : State) (a : MacAddr) : Prop :=
  exchangedIn cf s.sent s.trace s.interval a

/-- Every data frame that was handed over had been announced in the same
interval. -/
def State.announced (s : State) : Prop :=
  ∀ f k t, .handData f k :: t <:+ s.trace → exchangedIn cf s.sent t k f.addr1

/-- A received frame that lists its sender. -/
def RxFrame.listsSender : RxFrame → Prop
  | .atim mgmt _ => cf.accepts mgmt.da
  | .other => False

instance (frame : RxFrame) : Decidable (frame.listsSender cf) :=
  match frame with
  | .atim mgmt _ => inferInstanceAs (Decidable (cf.accepts mgmt.da))
  | .other => .isFalse id

/-- No data frame is between the last test of its receiver and the hand-over and
no ATIM frame waits in the receive queue when PRE-TBTT comes, the awake list has
been erased when the ATIM window starts, and statuses come in turn. -/
def announcementGuard : Guard State Irq Call where
  irq
    | .preTbtt _, s => s.selected = false ∧
        ∀ frame ∈ s.rxPendingPkts, ¬ frame.listsSender cf
    | .timer, s => s.timer = some .atimWindowStart → s.erasePending → s.wakeNeighbors = []
    | .txStatus st, s => inTurn st s
    | _, _ => True
  call _ _ := True

instance (s : State) (l : Label Irq Call) : Decidable ((announcementGuard cf).admits s l) :=
  match l with
  | .irq (.preTbtt _) => inferInstanceAs (Decidable (s.selected = false ∧
      ∀ frame ∈ s.rxPendingPkts, ¬ frame.listsSender cf))
  | .irq .timer => inferInstanceAs (Decidable (_ → _ → _))
  | .irq (.txStatus st) => inferInstanceAs (Decidable (inTurn st s))
  | .irq .txComp | .irq .bulkOutDone | .irq .beaconConfig | .irq (.rxAtim _ _)
  | .irq (.rxOther _) | .irq (.env _) | .main | .call _ => .isTrue trivial

structure AnnounceInv (s : State) : Prop where
  /-- A listed station was announced in this interval, unless the list is still
  to be erased. -/
  fresh : ∀ a ∈ s.wakeNeighbors, s.exchanged cf a ∨ (s.psmState = .preTbtt ∧ s.erasePending)
  received : ∀ mgmt k, .atim mgmt k ∈ s.rxPendingPkts → cf.accepts mgmt.da → k = s.interval
  current : ∀ n tr, s.awaited = some n → s.sent[n]? = some tr → tr.kind = .atim →
    tr.interval = s.interval
  timer : ∀ callback, s.timer = some callback → s.psmState = callback.window
  announced : s.announced cf

variable {cf}

theorem exchangedIn.mono {sent sent' : List Transmission} {trace trace' : List Obs} {k : Nat}
    {a : MacAddr} (h : exchangedIn cf sent trace k a) (hsent : sent <+: sent')
    (htrace : trace ⊆ trace') : exchangedIn cf sent' trace' k a := by
  rcases h with h | ⟨n, success, before, after, tr, hmem, htr, hrest⟩
  · exact .inl (htrace h)
  · obtain ⟨new, rfl⟩ := hsent
    refine .inr ⟨n, success, before, after, tr, htrace hmem, ?_, hrest⟩
    rw [List.getElem?_append_left (List.getElem?_eq_some_iff.mp htr).1]
    exact htr

theorem AnnounceInv.fresh_of_ne {s : State} (h : AnnounceInv cf s)
    (hpsm : s.psmState ≠ .preTbtt) {a : MacAddr} (ha : a ∈ s.wakeNeighbors) :
    s.exchanged cf a :=
  (h.fresh a ha).resolve_right fun hp => hpsm hp.1

/-- The history has grown, by no hand-over. -/
structure Quiet (s t : State) : Prop where
  sent : s.sent <+: t.sent
  trace : t.trace = s.trace ∨ ∃ o, t.trace = o :: s.trace ∧ ∀ f k, o ≠ .handData f k

theorem Quiet.of_eq {s t : State} (hsent : t.sent = s.sent) (htrace : t.trace = s.trace) :
    Quiet s t :=
  ⟨by rw [hsent], .inl htrace⟩

theorem Quiet.subset {s t : State} (h : Quiet s t) : s.trace ⊆ t.trace := by
  rcases h.trace with e | ⟨o, e, -⟩
  · rw [e]
    exact fun _ h => h
  · rw [e]
    exact List.subset_cons_self o s.trace

theorem Quiet.exchanged {s t : State} (h : Quiet s t) (hint : t.interval = s.interval)
    {a : MacAddr} (ha : s.exchanged cf a) : t.exchanged cf a := by
  unfold State.exchanged
  rw [hint]
  exact exchangedIn.mono ha h.sent h.subset

theorem Quiet.announced {s t : State} (h : Quiet s t) (hs : s.announced cf) :
    t.announced cf := by
  intro f k u hu
  rcases h.trace with e | ⟨o, e, ho⟩
  · rw [e] at hu
    exact (hs f k u hu).mono h.sent fun _ h => h
  · rw [e] at hu
    rcases List.suffix_cons_iff.mp hu with heq | hold
    · exact absurd (List.cons.inj heq).1.symm (ho f k)
    · exact (hs f k u hold).mono h.sent fun _ h => h

/-- The fields the announcement depends on. -/
def State.announce (s : State) : List MacAddr × OpState × Bool × Bool × List RxFrame ×
    Option Nat × Option TimerCallback × Nat :=
  (s.wakeNeighbors, s.psmState, s.eraseAwakeNodesFlag, s.erasing, s.rxPendingPkts, s.awaited,
    s.timer, s.interval)

theorem AnnounceInv.frame {s t : State} (h : AnnounceInv cf s) (ht : t.announce = s.announce)
    (hsent : t.sent = s.sent) (hq : Quiet s t) : AnnounceInv cf t := by
  simp only [State.announce, Prod.mk.injEq] at ht
  obtain ⟨hwake, hpsm, hflag, herasing, hrx, haw, htimer, hint⟩ := ht
  refine ⟨fun a ha => ?_, ?_, ?_, ?_, hq.announced h.announced⟩
  · rw [hwake] at ha
    refine (h.fresh a ha).imp (hq.exchanged hint) fun hp => ⟨hpsm.trans hp.1, ?_⟩
    unfold State.erasePending
    rw [hflag, herasing]
    exact hp.2
  · rw [hrx, hint]
    exact h.received
  · rw [haw, hsent, hint]
    exact h.current
  · rw [htimer, hpsm]
    exact h.timer

theorem announced_of_history {s t : State} (h : s.announced cf) (hsent : s.sent <+: t.sent)
    (htrace : t.trace = s.trace) : t.announced cf :=
  Quiet.announced ⟨hsent, .inl htrace⟩ h

variable (cf) in
/-- The rely of the main loop: interrupts only add to the awake list, to the
receive queue and to the history, and no interval begins between the choice of a
data frame and its hand-over. -/
def announceRely : Rely State where
  inv := AnnounceInv cf
  rel s t := s.wakeNeighbors ⊆ t.wakeNeighbors ∧ s.rxPendingPkts ⊆ t.rxPendingPkts ∧
    s.sent <+: t.sent ∧ s.trace ⊆ t.trace ∧
    (s.selected = true → t.selected = true ∧ t.interval = s.interval)
  refl s := ⟨List.Subset.refl _, List.Subset.refl _, List.prefix_refl _, List.Subset.refl _,
    fun h => ⟨h, rfl⟩⟩
  trans h h' := by
    refine ⟨List.Subset.trans h.1 h'.1, List.Subset.trans h.2.1 h'.2.1,
      h.2.2.1.trans h'.2.2.1, List.Subset.trans h.2.2.2.1 h'.2.2.2.1, fun hs => ?_⟩
    obtain ⟨ht, hint⟩ := h.2.2.2.2 hs
    obtain ⟨hu, hint'⟩ := h'.2.2.2.2 ht
    exact ⟨hu, hint'.trans hint⟩

section MainLoop

theorem AnnounceInv.sendData {s : State} (h : AnnounceInv cf s) (kind : TxKind) (f : SkBuff) :
    AnnounceInv cf (sendData kind f s) := by
  unfold Ar9170.sendData
  split
  · have hsent : s.sent <+: s.sent ++ [⟨kind, f, s.interval⟩] := List.prefix_append _ _
    refine ⟨fun a ha => ?_, h.received, fun n tr hn htr hk => ?_, h.timer, ?_⟩
    · refine (h.fresh a ha).imp (fun he => ?_) id
      exact exchangedIn.mono he hsent fun _ h => h
    · -- the new transmission is of this interval, whatever was awaited before
      rcases List.mem_append.mp (List.mem_of_getElem? htr) with hold | hnew
      · by_cases hlt : n < s.sent.length
        · rw [List.getElem?_append_left hlt] at htr
          by_cases hflag : s.waitFlag kind = true
          · simp only [hflag, if_true, Option.some.injEq] at hn
            omega
          · simp only [hflag] at hn
            exact h.current n tr hn htr hk
        · rw [List.getElem?_append_right (by omega)] at htr
          have hnew := List.mem_of_getElem? htr
          rw [List.mem_singleton] at hnew
          rw [hnew]
      · rw [List.mem_singleton] at hnew
        rw [hnew]
    · exact announced_of_history h.announced hsent rfl
  · exact h

theorem AnnounceInv.keep {s t : State} (h : AnnounceInv cf s) (ht : t.announce = s.announce)
    (hsent : t.sent = s.sent) (htrace : t.trace = s.trace) : AnnounceInv cf t :=
  h.frame ht hsent (Quiet.of_eq hsent htrace)

theorem AnnounceInv.observe {s t : State} {o : Obs} (h : AnnounceInv cf s)
    (ht : t.announce = s.announce) (hsent : t.sent = s.sent) (htrace : t.trace = o :: s.trace)
    (ho : ∀ f k, o ≠ .handData f k) : AnnounceInv cf t :=
  h.frame ht hsent ⟨by rw [hsent], .inr ⟨o, htrace, ho⟩⟩

theorem AnnounceInv.erase {f : State → State} (hf : EraseAction f) {s : State}
    (h : AnnounceInv cf s) : AnnounceInv cf (f s) := by
  -- an empty list needs no announcement
  have hempty : ∀ t : State, t.wakeNeighbors = [] → t.psmState = s.psmState →
      t.rxPendingPkts = s.rxPendingPkts → t.awaited = s.awaited → t.timer = s.timer →
      t.interval = s.interval → t.sent = s.sent → t.trace = s.trace → AnnounceInv cf t := by
    intro t hwake hpsm hrx haw htimer hint hsent htrace
    refine ⟨fun a ha => ?_, ?_, ?_, ?_, Quiet.announced (Quiet.of_eq hsent htrace) h.announced⟩
    · rw [hwake] at ha
      cases ha
    · rw [hrx, hint]
      exact h.received
    · rw [haw, hsent, hint]
      exact h.current
    · rw [htimer, hpsm]
      exact h.timer
  cases hf with
  | read => exact h
  | beginErase =>
      refine ⟨fun a ha => ?_, h.received, h.current, h.timer, h.announced⟩
      exact (h.fresh a ha).imp id fun hp => ⟨hp.1, .inr rfl⟩
  | skipErase =>
      unfold Ar9170.skipErase
      split
      · exact h
      next hpsm =>
        refine ⟨fun a ha => .inl ?_, h.received, h.current, h.timer, h.announced⟩
        exact h.fresh_of_ne hpsm ha
  | eraseIfEmpty =>
      unfold Ar9170.eraseIfEmpty
      split
      next hwake => exact hempty _ hwake rfl rfl rfl rfl rfl rfl rfl
      next => exact h
  | eraseWakeNeighbors => exact hempty _ rfl rfl rfl rfl rfl rfl rfl rfl

theorem AnnounceInv.power {f : State → State} (hf : PowerAction f) {s : State}
    (h : AnnounceInv cf s) : AnnounceInv cf (f s) := by
  cases hf with
  | command hf => cases hf <;> exact h.keep rfl rfl rfl
  | fallAsleep => exact h.observe rfl rfl rfl nofun

theorem AnnounceInv.create {f : State → State} (hf : CreateAction cf f) {s : State}
    (h : AnnounceInv cf s) : AnnounceInv cf (f s) := by
  cases hf
  case addAtim => rw [addAtim_eq]; exact h.keep rfl rfl rfl
  case addData => rw [addData_eq]; exact h.keep rfl rfl rfl
  all_goals exact h.keep rfl rfl rfl

theorem AnnounceInv.pick {f : State → State} (hf : PickAction f) {s : State}
    (h : AnnounceInv cf s) : AnnounceInv cf (f s) := by
  cases hf
  case markSelected => unfold Ar9170.markSelected; split <;> exact h.keep rfl rfl rfl
  case pruneAtims => exact h.observe rfl rfl rfl nofun
  case takeOut =>
    unfold Ar9170.takeOut
    split
    · exact h.keep rfl rfl rfl
    · exact h.observe rfl rfl rfl nofun
  all_goals exact h.keep rfl rfl rfl

theorem AnnounceInv.submit {f : State → State} (hf : SubmitAction f) {s : State}
    (h : AnnounceInv cf s) : AnnounceInv cf (f s) := by
  cases hf
  case observe f => exact h.observe rfl rfl rfl nofun
  case sendData kind f => exact h.sendData kind f
  case allocBeaconBuffer =>
    unfold Ar9170.allocBeaconBuffer
    split <;> exact h.keep rfl rfl rfl
  all_goals exact h.keep rfl rfl rfl

theorem AnnounceInv.send {f : State → State} (hf : SendAction f) {s : State}
    (h : AnnounceInv cf s) : AnnounceInv cf (f s) := by
  cases hf with
  | submit hf => exact h.submit hf
  | setQueue kind queue => cases kind <;> exact h.keep rfl rfl rfl

theorem AnnounceInv.mgmt {f : State → State} (hf : MgmtAction f) {s : State}
    (h : AnnounceInv cf s) : AnnounceInv cf (f s) := by
  cases hf with
  | pick hf => exact h.pick hf
  | send hf => exact h.send hf
  | startTxAtimWait => exact h.keep rfl rfl rfl
  | setLastAtimDA da => exact h.keep rfl rfl rfl
  | setLastAtimA3 a3 => exact h.keep rfl rfl rfl
  | setOffOverride override => exact h.keep rfl rfl rfl

theorem AnnounceInv.dropRxHead {s : State} (h : AnnounceInv cf s) :
    AnnounceInv cf (dropRxHead s) where
  fresh := h.fresh
  received mgmt k hmem := h.received mgmt k (List.mem_of_mem_tail hmem)
  current := h.current
  timer := h.timer
  announced := h.announced

/-- The receiver of the chosen frame is announced, and stays so. -/
def State.licensed (cf : Conf) (f : SkBuff) (s : State) : Prop :=
  s.selected = true ∧ s.exchanged cf f.addr1

theorem licensed_stable {f : SkBuff} {s t : State} (h : s.licensed cf f)
    (hst : (announceRely cf).rel s t) : t.licensed cf f := by
  obtain ⟨hsel, hint⟩ := hst.2.2.2.2 h.1
  refine ⟨hsel, ?_⟩
  unfold State.exchanged
  rw [hint]
  exact exchangedIn.mono h.2 hst.2.2.1 hst.2.2.2.1

theorem AnnounceInv.handOver {s : State} (h : AnnounceInv cf s) {f : SkBuff}
    (hf : s.licensed cf f) (rest : List SkBuff) : AnnounceInv cf (handOver f rest s) := by
  have hgrow : s.trace ⊆ .handData f s.interval :: s.trace := List.subset_cons_self _ _
  refine ⟨fun a ha => ?_, h.received, h.current, h.timer, fun g k t ht => ?_⟩
  · exact (h.fresh a ha).imp (fun he => exchangedIn.mono he (List.prefix_refl _) hgrow) id
  · rcases List.suffix_cons_iff.mp ht with heq | hold
    · obtain ⟨ho, rfl⟩ := List.cons.inj heq
      cases ho
      exact hf.2
    · exact h.announced g k t hold

/-- The state is read again after the list: outside PRE-TBTT the list is that of
the running interval. -/
theorem sat_isDAAwake_licensed (f : SkBuff) (s : State) (hs : AnnounceInv cf s) :
    Sat (announceRely cf) (isDAAwake true f)
      (fun awake t => awake = true → t.licensed cf f) s := by
  refine (sat_isRemoteDaAwake (r := announceRely cf) (K := fun _ => True) (fun _ _ hst => hst.1)
    (fun _ _ _ _ => trivial) f.addr1 trivial).seq hs fun awake t _ hmem => ?_
  split
  next hawake =>
    refine Sat.atomically_bind fun u htu hu => ⟨hu.pick (.markSelected true), ?_⟩
    intro v huv _ hpsm
    rw [decide_eq_true_eq] at hpsm
    refine licensed_stable ?_ huv
    have hmark : markSelected true u = { u with selected := true } := if_pos ⟨rfl, hpsm⟩
    rw [hmark]
    exact ⟨rfl, hu.fresh_of_ne hpsm (htu.1 (hmem.2 hawake))⟩
  next => exact fun _ _ _ h => by cases h

theorem sat_moveToFront_licensed {queue : List SkBuff} {i : Nat} {f : SkBuff} {s : State}
    (hf : queue[i]? = some f) (hs : s.licensed cf f) :
    Sat (announceRely cf) (moveToFront queue i)
      (fun found t => ∀ f rest, found = f :: rest → t.licensed cf f) s := by
  refine Sat.atomically_bind fun t hst ht => ⟨ht.pick (.takeOut queue i), ?_⟩
  have hlic := licensed_stable hs hst
  rw [hf]
  cases hroot : t.env.mallocOk with
  | false => exact fun _ _ _ _ _ h => by cases h
  | true =>
      have hout : takeOut queue i t = { t with txPendingPkts := queue.eraseIdx i } :=
        if_pos hroot
      rw [hout]
      intro u htu _ g rest heq
      cases heq
      exact licensed_stable (s := { t with txPendingPkts := queue.eraseIdx i }) hlic htu

/-- The frame at the head of the queue that is found has an announced receiver. -/
theorem sat_psmCanSendFirstPkt_licensed (s : State) :
    Sat (announceRely cf) psmCanSendFirstPkt
      (fun found t => ∀ f rest, found = f :: rest → t.licensed cf f) s := by
  refine Sat.read_bind fun t _ ht => ?_
  refine (Sat.findIndex (J := fun f t => t.licensed cf f) sat_isDAAwake_licensed
    (fun _ _ _ => licensed_stable) t.txPendingPkts 0 ht).seq ht fun found u _ hfound => ?_
  split
  · exact fun _ _ _ _ _ h => by cases h
  · obtain ⟨g, -, hg, hlic⟩ := hfound 0 rfl
    intro v huv _ f rest heq
    rw [heq] at hg
    cases hg
    exact licensed_stable hlic huv
  next i =>
    obtain ⟨g, -, hg, hlic⟩ := hfound (i + 1) rfl
    exact sat_moveToFront_licensed hg hlic

theorem sat_psmAsyncTxData_announce (s : State) :
    Sat (announceRely cf) (psmAsyncTxData cf) (fun _ _ => True) s := by
  refine Sat.read_bind fun t _ _ => ?_
  split
  · exact Sat.ret_true _
  · refine Sat.read_bind fun u _ hu => ?_
    split
    · refine Sat.seq (J := fun _ _ => True) ?_ hu fun free v hv _ => ?_
      · exact (acts_notWaiting (P := (· = id)) rfl).sat_reads (fun _ _ _ _ => trivial) trivial
      · split
        · refine (sat_psmCanSendFirstPkt_licensed v).seq hv fun queue w _ hlic => ?_
          split
          · exact Sat.ret_true _
          next f rest =>
            refine Sat.modify_bind fun x hwx hx => ⟨hx.keep rfl rfl rfl, ?_⟩
            refine Sat.modify_bind fun y hxy hy => ?_
            have hx' : (startTxDataWait x).licensed cf f :=
              licensed_stable (hlic f rest rfl) hwx
            refine ⟨hy.handOver (licensed_stable hx' hxy) rest, ?_⟩
            exact (acts_asyncTx cf .data).sat_true fun f t hf ht => ht.send hf
        · exact Sat.ret_true _
    · exact Sat.ret_true _

theorem mem_storeAwakeNode {last : List MacAddr} {sa a : MacAddr} {k : Nat} {s : State}
    (hlast : last ⊆ s.wakeNeighbors) (ha : a ∈ (storeAwakeNode last sa k s).wakeNeighbors) :
    a ∈ s.wakeNeighbors ∨ a = sa := by
  unfold storeAwakeNode at ha
  simp only at ha
  split at ha
  · rcases List.mem_cons.mp ha with rfl | hold
    · exact .inr rfl
    · exact .inl (List.mem_of_mem_tail hold)
  · rcases List.mem_append.mp ha with hold | hnew
    · exact .inl (hlast hold)
    · exact .inr (List.mem_singleton.mp hnew)

/-- The sender of an ATIM frame of this interval is listed. -/
theorem AnnounceInv.storeAwakeNode {s : State} (h : AnnounceInv cf s) {last : List MacAddr}
    {mgmt : AtimMgmt} {k : Nat} (hlast : last ⊆ s.wakeNeighbors)
    (hmem : .atim mgmt k ∈ s.rxPendingPkts) (hacc : cf.accepts mgmt.da) :
    AnnounceInv cf (storeAwakeNode last mgmt.sa k s) := by
  have hk := h.received mgmt k hmem hacc
  have hq : Quiet s (Ar9170.storeAwakeNode last mgmt.sa k s) :=
    ⟨List.prefix_refl _, .inr ⟨_, rfl, nofun⟩⟩
  refine ⟨fun a ha => ?_, h.received, h.current, h.timer, hq.announced h.announced⟩
  rcases mem_storeAwakeNode hlast ha with hold | rfl
  · exact (h.fresh a hold).imp (hq.exchanged rfl) id
  · refine .inl (.inl ?_)
    rw [hk]
    exact List.mem_cons_self

theorem AnnounceInv.cutAwakeNodes {s : State} (h : AnnounceInv cf s) {last : List MacAddr}
    (hlast : last ⊆ s.wakeNeighbors) : AnnounceInv cf (cutAwakeNodes last s) :=
  ⟨fun a ha => h.fresh a (hlast ha), h.received, h.current, h.timer, h.announced⟩

theorem sat_rxListSender_announce {mgmt : AtimMgmt} {k : Nat} {s : State}
    (hmem : .atim mgmt k ∈ s.rxPendingPkts) (hacc : cf.accepts mgmt.da)
    (hs : AnnounceInv cf s) :
    Sat (announceRely cf) (rxListSender mgmt.sa k) (fun _ _ => True) s := by
  refine Sat.seq (J := fun _ t => .atim mgmt k ∈ t.rxPendingPkts) ?_ hs fun awake t ht hmem => ?_
  · exact (acts_isRemoteDaAwake (P := (· = id)) rfl _).sat_reads (fun t u hm htu => htu.2.1 hm) hmem
  · split
    · exact Sat.ret_true _
    · refine Sat.read_bind fun u htu _ => ?_
      split
      · refine Sat.read_bind fun v huv _ => Sat.read_bind fun w hvw _ => ?_
        split
        · refine Sat.modify fun x hwx hx => ⟨?_, fun _ _ _ => trivial⟩
          have hlast : v.wakeNeighbors ⊆ x.wakeNeighbors := List.Subset.trans hvw.1 hwx.1
          exact hx.storeAwakeNode hlast
            (hwx.2.1 (hvw.2.1 (huv.2.1 (htu.2.1 hmem)))) hacc
        · split
          · refine Sat.modify fun x hwx hx => ⟨?_, fun _ _ _ => trivial⟩
            exact hx.cutAwakeNodes (List.Subset.trans hvw.1 hwx.1)
          · exact Sat.ret_true _
      · exact Sat.ret_true _

theorem sat_rxHandleATIMPkt_announce {mgmt : AtimMgmt} {k : Nat} {s : State}
    (hmem : .atim mgmt k ∈ s.rxPendingPkts) (hacc : cf.accepts mgmt.da) :
    Sat (announceRely cf) (rxHandleATIMPkt cf mgmt k) (fun _ _ => True) s := by
  refine Sat.read_bind fun t hst _ => Sat.modify_bind fun u htu hu => ?_
  have hu' : AnnounceInv cf (setOffOverride (t.offOverride ||| psOffAtim) u) :=
    hu.keep rfl rfl rfl
  refine ⟨hu', ?_⟩
  have hmem' : .atim mgmt k ∈
      (setOffOverride (t.offOverride ||| psOffAtim) u).rxPendingPkts := htu.2.1 (hst.2.1 hmem)
  refine (sat_rxListSender_announce hmem' hacc hu').seq hu' fun _ v _ _ => ?_
  split
  · exact Sat.ret_true _
  · split
    · exact (acts_mhPsmHandleAtimPacket cf mgmt).sat_true fun f t hf ht => ht.create hf
    · exact Sat.ret_true _

theorem sat_schAsyncRxCheck_announce (s : State) :
    Sat (announceRely cf) (schAsyncRxCheck cf) (fun _ _ => True) s := by
  have hdrop : ∀ t, Sat (announceRely cf) (Prog.modify dropRxHead) (fun _ _ => True) t :=
    fun t => Sat.modify fun u _ hu => ⟨hu.dropRxHead, fun _ _ _ => trivial⟩
  refine Sat.read_bind fun t _ _ => ?_
  split
  · exact Sat.ret_true _
  · refine Sat.read_bind fun u _ _ => ?_
    split
    · exact Sat.ret_true _
    · refine Sat.read_bind fun v _ hv => ?_
      split
      next mgmt k hhead =>
        have hmem : .atim mgmt k ∈ v.rxPendingPkts := List.mem_of_mem_head? hhead
        refine Sat.seq (J := fun _ _ => True) ?_ hv fun _ w _ _ => hdrop w
        refine Sat.read_bind fun w hvw _ => Sat.read_bind fun x hwx _ => ?_
        split
        · exact Sat.ret_true _
        · split
          next hacc =>
            split
            · exact sat_rxHandleATIMPkt_announce (hwx.2.1 (hvw.2.1 hmem)) hacc
            · exact Sat.ret_true _
          next => exact Sat.ret_true _
      next => exact hdrop v

theorem sat_call_announce (cf : Conf) (k : Call) (s : State) (h : AnnounceInv cf s) :
    Sat (announceRely cf) ((machine cf).body k) (fun _ _ => True) s := by
  cases k with
  | opScheduler =>
      refine Sat.seq (J := fun _ _ => True) ?_ h fun _ t ht _ => ?_
      · exact Acts.sat_true acts_schEraseNodesCheck fun f t hf ht => ht.erase hf
      · refine Sat.seq (J := fun _ _ => True) ?_ ht fun _ u hu _ => ?_
        · exact Acts.sat_true acts_schPowersaveCheck fun f t hf ht => ht.power hf
        · refine Sat.seq (J := fun _ _ => True) ?_ hu fun _ v _ _ =>
            sat_schAsyncRxCheck_announce v
          refine sat_schAsyncTxCheck (J := fun _ => True) (W := fun _ => True) cf
            (fun _ _ _ _ => trivial) (fun s hs _ => ?_) (fun s hs _ => ?_)
            (fun s _ _ => sat_psmAsyncTxData_announce s) (fun s hs _ _ => ?_)
            (fun s hs _ => ?_) trivial
          · exact (Acts.sat_reads (J := fun _ => True) (acts_notWaiting (P := (· = id)) rfl)
              (fun _ _ _ _ => trivial) trivial).mono fun _ _ _ _ => ⟨trivial, fun _ => trivial⟩
          · exact Acts.sat_true (acts_psmAsyncTxMgmt cf) fun f t hf ht => ht.mgmt hf
          · exact Acts.sat_true (acts_asyncTx cf .data) fun f t hf ht => ht.send hf
          · exact Acts.sat_true (acts_schTxSoftBeacon cf) fun f t hf ht => ht.submit hf
  | ieee80211OpScheduler =>
      exact Acts.sat_true (acts_ieee80211OpScheduler cf) fun f t hf ht => ht.create hf
  | startXmit da nextHop =>
      exact Acts.sat_true (acts_startXmit cf da nextHop) fun f t hf ht => ht.create hf

end MainLoop

section Interrupts

theorem announceRely_rel {s t : State} (hwake : s.wakeNeighbors ⊆ t.wakeNeighbors)
    (hrx : s.rxPendingPkts ⊆ t.rxPendingPkts) (hq : Quiet s t)
    (hsel : t.selected = s.selected) (hint : s.selected = true → t.interval = s.interval) :
    (announceRely cf).rel s t :=
  ⟨hwake, hrx, hq.sent, hq.subset, fun h => ⟨hsel.trans h, hint h⟩⟩

theorem quiet_psUpdate (cf : Conf) (s : State) : Quiet s (psUpdate cf s) := by
  rcases psUpdate_cases cf s with e | ⟨-, e⟩ | ⟨-, e⟩
  · rw [e]
    exact .of_eq rfl rfl
  · rw [e]
    exact ⟨List.prefix_refl _, .inr ⟨_, rfl, nofun⟩⟩
  · rw [e]
    exact ⟨List.prefix_refl _, .inr ⟨_, rfl, nofun⟩⟩

theorem psUpdate_announce (cf : Conf) (s : State) :
    (psUpdate cf s).announce = s.announce ∧ (psUpdate cf s).sent = s.sent ∧
      (psUpdate cf s).selected = s.selected := by
  rcases psUpdate_cases cf s with e | ⟨-, e⟩ | ⟨-, e⟩ <;> rw [e] <;> exact ⟨rfl, rfl, rfl⟩

theorem clearWaitFlags_announce (s : State) :
    (clearWaitFlags s).wakeNeighbors = s.wakeNeighbors ∧
    (clearWaitFlags s).psmState = s.psmState ∧
    (clearWaitFlags s).eraseAwakeNodesFlag = s.eraseAwakeNodesFlag ∧
    (clearWaitFlags s).rxPendingPkts = s.rxPendingPkts ∧
    (clearWaitFlags s).timer = s.timer ∧ (clearWaitFlags s).interval = s.interval ∧
    (clearWaitFlags s).sent = s.sent ∧ (clearWaitFlags s).trace = s.trace ∧
    (clearWaitFlags s).selected = s.selected ∧ (clearWaitFlags s).txAtimWait = false := by
  unfold clearWaitFlags
  rw [settle_eq]
  exact ⟨rfl, rfl, rfl, rfl, rfl, rfl, rfl, rfl, rfl, rfl⟩

/-- PRE-TBTT begins an interval: the list is to be erased, no ATIM frame is
awaited any more, and none is left in the receive queue. -/
theorem AnnounceInv.rspPreTbtt {s : State} (hif : cf.vifType = .adhoc) (hps : cf.confPs = true)
    (h : AnnounceInv cf s) (rfOn : Bool) (hnosel : s.selected = false)
    (hrx : ∀ frame ∈ s.rxPendingPkts, ¬ frame.listsSender cf)
    (haw : AwaitedInv cf (rspPreTbtt cf rfOn s)) :
    AnnounceInv cf (rspPreTbtt cf rfOn s) ∧
      (announceRely cf).rel s (rspPreTbtt cf rfOn s) := by
  have heq : Ar9170.rspPreTbtt cf rfOn s =
      clearWaitFlags (startBeaconInterval (readRfState rfOn s)) := by
    unfold Ar9170.rspPreTbtt
    rw [hif, hps]
    rfl
  obtain ⟨hwake, hpsm, hflag, hrx', htimer, -, hsent, htrace, hsel, hatim⟩ :=
    clearWaitFlags_announce (startBeaconInterval (readRfState rfOn s))
  rw [heq] at haw ⊢
  refine ⟨⟨fun a _ => .inr ⟨hpsm, .inl hflag⟩, fun mgmt k hmem hacc => ?_,
    fun n tr hn htr hk => ?_, fun callback hc => ?_, ?_⟩, ?_⟩
  · rw [hrx'] at hmem
    exact absurd hacc (hrx _ hmem)
  · obtain ⟨tr', htr', hflag', -⟩ := haw.awaited n hn
    rw [htr] at htr'
    cases htr'
    rw [hk] at hflag'
    exact absurd (hatim.symm.trans hflag') (by decide)
  · rw [htimer] at hc
    cases hc
    exact hpsm
  · exact Quiet.announced (Quiet.of_eq hsent htrace) h.announced
  · refine announceRely_rel ?_ ?_ (.of_eq hsent htrace) hsel fun hs => ?_
    · rw [hwake]
      exact List.Subset.refl _
    · rw [hrx']
      exact List.Subset.refl _
    · rw [hnosel] at hs
      cases hs

theorem AnnounceInv.timerFires {s s' : State} (h : AnnounceInv cf s)
    (hG : s.timer = some .atimWindowStart → s.erasePending → s.wakeNeighbors = [])
    (hi : timerFires cf s = some s') :
    AnnounceInv cf s' ∧ (announceRely cf).rel s s' := by
  unfold Ar9170.timerFires at hi
  obtain ⟨callback, hc, rfl⟩ := Option.map_eq_some_iff.mp hi
  have hwindow := h.timer callback hc
  -- once the window begins, no entry of the last interval is left
  have hfresh : callback = .atimWindowStart ∨ s.psmState ≠ .preTbtt →
      ∀ a ∈ s.wakeNeighbors, s.exchanged cf a := by
    intro hwhen a ha
    rcases h.fresh a ha with he | ⟨hpre, hpending⟩
    · exact he
    · rcases hwhen with rfl | hne
      · rw [hG hc hpending] at ha
        cases ha
      · exact absurd hpre hne
  cases callback with
  | atimWindowStart =>
      refine ⟨⟨fun a ha => .inl (hfresh (.inl rfl) a ha), h.received, h.current, ?_,
        h.announced⟩, announceRely_rel (List.Subset.refl _) (List.Subset.refl _)
          (.of_eq rfl rfl) rfl fun _ => rfl⟩
      intro callback hcb
      cases hcb
      exact if_pos hwindow
  | atimWindowEnd =>
      have hne : s.psmState ≠ .preTbtt := by
        rw [hwindow]
        decide
      simp only [psmAtimWindowEnd]
      split
      · refine ⟨⟨fun a ha => .inl (hfresh (.inr hne) a ha), h.received, h.current, ?_,
          h.announced⟩, announceRely_rel (List.Subset.refl _) (List.Subset.refl _)
            (.of_eq rfl rfl) rfl fun _ => rfl⟩
        intro callback hcb
        cases hcb
        rfl
      · have hend : AnnounceInv cf { s with timer := none, psmState := .txWindow } :=
          ⟨fun a ha => .inl (hfresh (.inr hne) a ha), h.received, h.current,
            (by intro callback hcb; cases hcb), h.announced⟩
        obtain ⟨hann, hsent, hsel⟩ :=
          psUpdate_announce cf { s with timer := none, psmState := .txWindow }
        have hq := quiet_psUpdate cf { s with timer := none, psmState := .txWindow }
        refine ⟨hend.frame hann hsent hq, ?_⟩
        simp only [State.announce, Prod.mk.injEq] at hann
        refine announceRely_rel ?_ ?_ ⟨hq.sent, hq.trace⟩ hsel fun _ => hann.2.2.2.2.2.2.2
        · rw [hann.1]
          exact List.Subset.refl _
        · rw [hann.2.2.2.2.1]
          exact List.Subset.refl _
  | softBeaconTx =>
      have hne : s.psmState ≠ .preTbtt := by
        rw [hwindow]
        decide
      have hsoft : s.psmState = .softBcnWindow := hwindow
      simp only [psmSoftBeaconTx]
      rw [if_pos hsoft]
      refine ⟨⟨fun a ha => .inl (hfresh (.inr hne) a ha), h.received, h.current, ?_,
        h.announced⟩, announceRely_rel (List.Subset.refl _) (List.Subset.refl _)
          (.of_eq rfl rfl) rfl fun _ => rfl⟩
      intro callback hcb
      cases hcb
      exact hwindow

/-- A status lists nothing but the saved addresses, and those only when the ATIM
frame was acknowledged or needed no acknowledgement. -/
theorem mem_creditLastAtim_imp {s : State} {st : TxStatus} {a : MacAddr}
    (h : a ∈ (creditLastAtim cf st s).wakeNeighbors) :
    a ∈ s.wakeNeighbors ∨
      ((st.success = true ∨ s.lastAtimDA = MacAddr.broadcast) ∧
        (a = s.lastAtimDA ∨ (cf.psMode = .mhPsm ∧ a = s.lastAtimA3))) := by
  unfold creditLastAtim at h
  split at h
  · exact .inl h
  next hok =>
    have hok' : st.success = true ∨ s.lastAtimDA = MacAddr.broadcast := by
      by_cases hs : st.success = true
      · exact .inl hs
      · rw [Bool.not_eq_true] at hs
        exact .inr (not_not.mp fun hne => hok ⟨hs, hne⟩)
    split at h
    · exact .inl h
    · split at h
      · exact .inl h
      · exact (mem_listAwake h).imp id fun e => ⟨hok', .inl e⟩
    next hmode =>
      split at h
      · exact .inl h
      · rcases mem_listAwake h with hin | e
        · exact (mem_listAwake hin).imp id fun e => ⟨hok', .inl e⟩
        · exact .inr ⟨hok', .inr ⟨hmode, e⟩⟩

theorem subset_creditLastAtim (cf : Conf) (st : TxStatus) (s : State) :
    s.wakeNeighbors ⊆ (creditLastAtim cf st s).wakeNeighbors := by
  unfold creditLastAtim
  split
  · exact List.Subset.refl _
  · split
    · exact List.Subset.refl _
    · split
      · exact List.Subset.refl _
      · exact subset_listAwake _ _ _
    · split
      · exact List.Subset.refl _
      · exact List.Subset.trans (subset_listAwake _ _ _) (subset_listAwake _ _ _)

theorem handleATIMStatusRsp_keeps (cf : Conf) (st : TxStatus) (s : State) :
    (handleATIMStatusRsp cf st s).settle.psmState = s.psmState ∧
    (handleATIMStatusRsp cf st s).settle.eraseAwakeNodesFlag = s.eraseAwakeNodesFlag ∧
    (handleATIMStatusRsp cf st s).settle.erasing = s.erasing ∧
    (handleATIMStatusRsp cf st s).settle.rxPendingPkts = s.rxPendingPkts ∧
    (handleATIMStatusRsp cf st s).settle.timer = s.timer ∧
    (handleATIMStatusRsp cf st s).settle.interval = s.interval ∧
    (handleATIMStatusRsp cf st s).settle.selected = s.selected ∧
    (handleATIMStatusRsp cf st s).settle.sent = s.sent := by
  have e := creditLastAtim_eq cf st s
  rw [settle_eq]
  exact ⟨(congrArg State.psmState e :), (congrArg State.eraseAwakeNodesFlag e :),
    (congrArg State.erasing e :), (congrArg State.rxPendingPkts e :), (congrArg State.timer e :),
    (congrArg State.interval e :), (congrArg State.selected e :), (congrArg State.sent e :)⟩

theorem handleATIMStatusRsp_lists (cf : Conf) (st : TxStatus) (s : State) :
    (handleATIMStatusRsp cf st s).settle.wakeNeighbors =
      (creditLastAtim cf st s).wakeNeighbors ∧
    (handleATIMStatusRsp cf st s).settle.trace = .atimStatus st.n st.success s.wakeNeighbors
      (creditLastAtim cf st s).wakeNeighbors :: s.trace := by
  rw [settle_eq]
  exact ⟨rfl, congrArg _ (congrArg State.trace (creditLastAtim_eq cf st s))⟩

/-- The status of the awaited ATIM frame lists the stations it announced. -/
theorem AnnounceInv.handleATIMStatusRsp {s : State} {st : TxStatus} {tr : Transmission}
    (h : AnnounceInv cf s) (hnone : (handleATIMStatusRsp cf st s).settle.awaited = none)
    (htr : s.sent[st.n]? = some tr) (hkind : tr.kind = .atim) (hint : tr.interval = s.interval)
    (hslot : s.slotHolds cf tr.frame) :
    AnnounceInv cf (handleATIMStatusRsp cf st s).settle ∧
      (announceRely cf).rel s (handleATIMStatusRsp cf st s).settle := by
  obtain ⟨hpsm, hflag, herasing, hrx, htimer, hint', hsel, hsent⟩ :=
    handleATIMStatusRsp_keeps cf st s
  obtain ⟨hwake, htrace⟩ := handleATIMStatusRsp_lists cf st s
  have hq : Quiet s (Ar9170.handleATIMStatusRsp cf st s).settle :=
    ⟨by rw [hsent], .inr ⟨_, htrace, nofun⟩⟩
  refine ⟨⟨fun a ha => ?_, ?_, ?_, ?_, hq.announced h.announced⟩,
    announceRely_rel ?_ ?_ hq hsel fun _ => hint'⟩
  · rw [hwake] at ha
    rcases mem_creditLastAtim_imp ha with hold | ⟨hok, haddr⟩
    · refine (h.fresh a hold).imp (hq.exchanged hint') fun hp => ⟨hpsm.trans hp.1, ?_⟩
      unfold State.erasePending
      rw [hflag, herasing]
      exact hp.2
    · refine .inl (.inr ⟨st.n, st.success, s.wakeNeighbors,
        (creditLastAtim cf st s).wakeNeighbors, tr, ?_, ?_, hkind, ?_, ?_, ?_⟩)
      · rw [htrace]
        exact List.mem_cons_self
      · rw [hsent]
        exact htr
      · rw [hint']
        exact hint
      · rw [← hslot.1]
        exact hok
      · rw [← hslot.1]
        refine haddr.imp id fun hmh => ⟨hmh.1, ?_⟩
        rw [← hslot.2 hmh.1]
        exact hmh.2
  · rw [hrx, hint']
    exact h.received
  · intro n tr hn
    rw [hnone] at hn
    cases hn
  · rw [htimer, hpsm]
    exact h.timer
  · rw [hwake]
    exact subset_creditLastAtim cf st s
  · rw [hrx]
    exact List.Subset.refl _

theorem AnnounceInv.settle {s : State} (h : AnnounceInv cf s) : AnnounceInv cf s.settle := by
  unfold State.settle
  split
  · exact h
  · exact ⟨h.fresh, h.received, nofun, h.timer, h.announced⟩

theorem AnnounceInv.txStatus {s : State} {st : TxStatus} (h : AnnounceInv cf s)
    (haw : AwaitedInv cf s) (hst : inTurn st s) :
    AnnounceInv cf (txStatus cf st s) ∧ (announceRely cf).rel s (txStatus cf st s) := by
  have hrel : ∀ t : State, t.wakeNeighbors = s.wakeNeighbors → t.rxPendingPkts = s.rxPendingPkts →
      t.sent = s.sent → t.trace = s.trace → t.selected = s.selected → t.interval = s.interval →
      (announceRely cf).rel s t := by
    intro t hwake hrx hsent htrace hsel hint
    refine announceRely_rel ?_ ?_ (.of_eq hsent htrace) hsel fun _ => hint
    · rw [hwake]
      exact List.Subset.refl _
    · rw [hrx]
      exact List.Subset.refl _
  unfold Ar9170.txStatus
  split
  · exact ⟨h.keep rfl rfl rfl, hrel _ rfl rfl rfl rfl rfl rfl⟩
  · split
    next hatim =>
      split
      · have hs : AnnounceInv cf (releaseTxAtimWait s) := h.keep rfl rfl rfl
        obtain ⟨tr, htr, hkind, hslot⟩ := haw.awaited_atim (hst hatim) hatim
        have hint := h.current _ tr (hst hatim) htr hkind
        have e := creditLastAtim_eq cf st (releaseTxAtimWait s)
        have hnone : (Ar9170.handleATIMStatusRsp cf st (releaseTxAtimWait s)).settle.awaited =
            none := by
          rw [settle_of_clear (s := Ar9170.handleATIMStatusRsp cf st (releaseTxAtimWait s))
            (congrArg State.txAtimWait e)
            ((congrArg State.txDataWait e).trans (haw.one hatim))]
        exact hs.handleATIMStatusRsp hnone htr hkind hint hslot
      · exact ⟨h, (announceRely cf).refl s⟩
    next =>
      have hs : AnnounceInv cf (releaseTxDataWait s) := h.keep rfl rfl rfl
      refine ⟨hs.settle, ?_⟩
      rw [settle_eq]
      exact hrel _ rfl rfl rfl rfl rfl rfl

theorem AnnounceInv.scheduleHandleMpdu {s : State} (h : AnnounceInv cf s) {frame : RxFrame}
    (hframe : ∀ mgmt k, frame = .atim mgmt k → k = s.interval) (ok : Bool) :
    AnnounceInv cf (scheduleHandleMpdu frame ok s) ∧
      (announceRely cf).rel s (scheduleHandleMpdu frame ok s) := by
  unfold Ar9170.scheduleHandleMpdu
  split
  · exact ⟨h, (announceRely cf).refl s⟩
  · refine ⟨⟨h.fresh, fun mgmt k hmem hacc => ?_, h.current, h.timer, h.announced⟩,
      announceRely_rel (List.Subset.refl _) (subset_linkedListAddTail _ _ _ _)
        (.of_eq rfl rfl) rfl fun _ => rfl⟩
    rcases mem_linkedListAddTail hmem with hold | hnew
    · exact h.received mgmt k hold hacc
    · exact hframe mgmt k hnew.symm

theorem announceInv_irq (hif : cf.vifType = .adhoc) (hps : cf.confPs = true) (i : Irq)
    (s s' : State) (haw : AwaitedInv cf s) (haw' : AwaitedInv cf s') (h : AnnounceInv cf s)
    (hG : (announcementGuard cf).irq i s) (hi : irq cf i s = some s') :
    AnnounceInv cf s' ∧ (announceRely cf).rel s s' := by
  cases i with
  | preTbtt rfOn =>
      cases hi
      exact h.rspPreTbtt hif hps rfOn hG.1 hG.2 haw'
  | timer => exact h.timerFires hG hi
  | txStatus st =>
      obtain ⟨-, rfl⟩ := irq_txStatus_eq_some hi
      have hs : AnnounceInv cf { s with reported := st.n :: s.reported } := h.keep rfl rfl rfl
      have haws : AwaitedInv cf { s with reported := st.n :: s.reported } := haw.frame rfl
      exact hs.txStatus haws hG
  | txComp =>
      cases hi
      unfold txCompUnlock
      split <;> exact ⟨h.keep rfl rfl rfl, (announceRely cf).refl s⟩
  | bulkOutDone => cases hi; exact ⟨h.keep rfl rfl rfl, (announceRely cf).refl s⟩
  | beaconConfig =>
      cases hi
      unfold rspBeaconConfig
      split <;> exact ⟨h.keep rfl rfl rfl, (announceRely cf).refl s⟩
  | rxAtim mgmt ok =>
      cases hi
      refine h.scheduleHandleMpdu (fun mgmt' k e => ?_) ok
      cases e
      rfl
  | rxOther ok =>
      cases hi
      exact h.scheduleHandleMpdu (fun _ _ e => by cases e) ok
  | env e => cases hi; exact ⟨h.keep rfl rfl rfl, (announceRely cf).refl s⟩

end Interrupts

variable (cf) in
/-- Both invariants together. -/
def announcementRely : Rely State :=
  (awaitedRely cf).and (announceRely cf)

theorem announcementInv_irq (hif : cf.vifType = .adhoc) (hps : cf.confPs = true) (i : Irq)
    (s s' : State) (h : (announcementRely cf).inv s) (hG : (announcementGuard cf).irq i s)
    (hi : irq cf i s = some s') :
    (announcementRely cf).inv s' ∧ (announcementRely cf).rel s s' := by
  have hturn : ∀ st, i = .txStatus st → inTurn st s := by
    rintro st rfl
    exact hG
  have haw := awaitedInv_irq i s s' h.1 hturn hi
  have hann := announceInv_irq hif hps i s s' h.1 haw.1 h.2 hG hi
  exact ⟨⟨haw.1, hann.1⟩, haw.2, hann.2⟩

theorem sat_call_announcement (k : Call) (s : State) (h : (announcementRely cf).inv s) :
    Sat (announcementRely cf) ((machine cf).body k) (fun _ _ => True) s :=
  ((sat_call_awaited cf k s h.1).and (sat_call_announce cf k s h.2)).mono fun _ _ _ _ => trivial

/-- In every run that meets the guard, a data frame is handed over only to a
station announced in the same interval. -/
theorem announced_of_run (hif : cf.vifType = .adhoc) (hps : cf.confPs = true)
    {c : Config State} {ls : List (Label Irq Call)}
    (h : (machine cf).Run (announcementGuard cf) (.idle .init) ls c) : c.state.announced cf := by
  have hinit : (announcementRely cf).inv .init := by
    refine ⟨awaitedInv_of_clear rfl rfl, fun a ha => ?_, fun mgmt k hmem => ?_, nofun, nofun,
      fun f k t ht => ?_⟩
    · cases ha
    · cases hmem
    · exact absurd (List.suffix_nil.mp ht) (List.cons_ne_nil _ _)
  exact (h.inv (r := announcementRely cf) (announcementInv_irq hif hps)
    (fun k s hs _ => sat_call_announcement k s hs) hinit).2.announced

/-- The acknowledged ATIM frame is followed by its data frame in the TX window. -/
def announcedTransfer : List (Label Irq Call) :=
  atimAcknowledged ++ [.irq .bulkOutDone, .irq .timer] ++ callFor .opScheduler 22

theorem announced_of_run_announcedTransfer :
    ∃ c, (machine .std).Run (announcementGuard .std) (.idle .init) announcedTransfer c ∧
      .handData ⟨0, 0xa, 0xb⟩ 1 ∈ c.state.trace ∧ c.state.announced .std := by
  obtain ⟨c, hrun, hdata⟩ := Machine.exists_run_of_exec (machine .std) (announcementGuard .std)
    (.idle .init) announcedTransfer
    (fun s => .handData ⟨0, 0xa, 0xb⟩ 1 ∈ s.trace) (by decide) (by decide)
  exact ⟨c, hrun, hdata, announced_of_run rfl rfl hrun⟩

/-- The data frame waits for the next interval, in which the scheduler runs after
the PRE-TBTT window only. -/
def schedulerLate : List (Label Irq Call) :=
  atimAcknowledged ++
    [.irq .bulkOutDone, .irq .timer, .irq (.preTbtt true), .irq .timer, .irq .timer] ++
    callFor .opScheduler 24

theorem not_announced_schedulerLate :
    ∃ c, (machine .std).Run .any (.idle .init) schedulerLate c ∧ c.state.interval = 2 ∧
      (∃ t, c.state.trace = .handData ⟨0, 0xa, 0xb⟩ 2 :: t) ∧ ¬ c.state.announced .std := by
  obtain ⟨c, hrun, hint, htrace, hsent⟩ := Machine.exists_run_of_exec (machine .std) rfOnGuard
    (.idle .init) schedulerLate
    (fun s => s.interval = 2 ∧
      s.trace = [.handData ⟨0, 0xa, 0xb⟩ 2, .atimStatus 0 true [] [0xa],
        .opTx ⟨1, 0xa, 0xb⟩] ∧
      s.sent = [⟨.atim, ⟨1, 0xa, 0xb⟩, 1⟩]) (by decide) (by decide)
  refine ⟨c, hrun.of_any, hint, ⟨_, htrace⟩, fun hann => ?_⟩
  have hex := hann ⟨0, 0xa, 0xb⟩ 2 _ ⟨[], htrace.symm⟩
  rcases hex with hrecv | ⟨n, success, before, after, tr, -, htr, -, hk, -⟩
  · simp at hrecv
  · -- the only ATIM frame was sent in the first interval
    rw [hsent] at htr
    have hmem := List.mem_of_getElem? htr
    rw [List.mem_singleton] at hmem
    rw [hmem] at hk
    cases hk

end Calipso.Ar9170
