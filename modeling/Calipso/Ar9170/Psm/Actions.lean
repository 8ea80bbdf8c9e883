import Calipso.Interrupt.Rely
import Calipso.Ar9170.Psm.Scheduler

/-!
# What the code of the main loop can write

For each part of the main loop, the list of the updates it makes. An invariant
that every update of a part keeps holds throughout that part, whatever path the
code takes and whatever it has read (`Acts.sat_true`); only the parts whose
updates depend on what was read before need a proof along the code.
-/

namespace Calipso.Ar9170

open Interrupt

/-- The updates of `schEraseNodesCheck`. -/
inductive EraseAction : (State → State) → Prop
  | read : EraseAction id
  | beginErase : EraseAction beginErase
  | skipErase : EraseAction skipErase
  | eraseIfEmpty : EraseAction eraseIfEmpty
  | eraseWakeNeighbors : EraseAction eraseWakeNeighbors

/-- The updates of `powersave`, and the one that follows it. -/
inductive CommandAction : (State → State) → Prop
  | read : CommandAction id
  | setTransitToSleep : CommandAction (setTransitToSleep false)
  | setTransitToWake : CommandAction (setTransitToWake true)
  | clearUpdateMask : CommandAction clearUpdateMask

/-- The updates of `schPowersaveCheck`. -/
inductive PowerAction : (State → State) → Prop
  | command {f} : CommandAction f → PowerAction f
  | fallAsleep : PowerAction fallAsleep

/-- The updates of `ieee80211OpScheduler` and `startXmit`. -/
inductive CreateAction (cf : Conf) : (State → State) → Prop
  | read : CreateAction cf id
  | clearCreateAtimsFlag : CreateAction cf clearCreateAtimsFlag
  | addAtim (da a3) : CreateAction cf (addAtim cf da a3)
  | addData (da nextHop) : CreateAction cf (addData cf da nextHop)

/-- The updates of the code that picks a frame. -/
inductive PickAction : (State → State) → Prop
  | read : PickAction id
  | markSelected (selecting) : PickAction (markSelected selecting)
  | pruneAtims (pruned rest) : PickAction (pruneAtims pruned rest)
  | takeOut (queue i) : PickAction (takeOut queue i)

/-- The updates of `opTx` and of the soft beacon. -/
inductive SubmitAction : (State → State) → Prop
  | read : SubmitAction id
  | observe (f) : SubmitAction (observe (.opTx f))
  | setTxAsyncLock (lock) : SubmitAction (setTxAsyncLock lock)
  | sendData (kind f) : SubmitAction (sendData kind f)
  | allocBeaconBuffer : SubmitAction allocBeaconBuffer
  | clearSendSoftBcnFlag : SubmitAction clearSendSoftBcnFlag

/-- The updates of `asyncTx`. -/
inductive SendAction : (State → State) → Prop
  | submit {f} : SubmitAction f → SendAction f
  | setQueue (kind queue) : SendAction (setQueue kind queue)

/-- The updates of `psmAsyncTxMgmt`. -/
inductive MgmtAction : (State → State) → Prop
  | pick {f} : PickAction f → MgmtAction f
  | send {f} : SendAction f → MgmtAction f
  | startTxAtimWait : MgmtAction startTxAtimWait
  | setLastAtimDA (da) : MgmtAction (setLastAtimDA da)
  | setLastAtimA3 (a3) : MgmtAction (setLastAtimA3 a3)
  | setOffOverride (override) : MgmtAction (setOffOverride override)

/-- The updates of `schAsyncTxCheck`. -/
inductive TxAction : (State → State) → Prop
  | mgmt {f} : MgmtAction f → TxAction f
  | startTxDataWait : TxAction startTxDataWait
  | handOver (f rest) : TxAction (handOver f rest)

/-- The updates of `schAsyncRxCheck`. -/
inductive RxAction (cf : Conf) : (State → State) → Prop
  | create {f} : CreateAction cf f → RxAction cf f
  | setOffOverride (override) : RxAction cf (setOffOverride override)
  | storeAwakeNode (last sa received) : RxAction cf (storeAwakeNode last sa received)
  | cutAwakeNodes (last) : RxAction cf (cutAwakeNodes last)
  | dropRxHead : RxAction cf dropRxHead

/-- All updates of the main loop. -/
inductive CodeAction (cf : Conf) : (State → State) → Prop
  | erase {f} : EraseAction f → CodeAction cf f
  | power {f} : PowerAction f → CodeAction cf f
  | create {f} : CreateAction cf f → CodeAction cf f
  | tx {f} : TxAction f → CodeAction cf f
  | rx {f} : RxAction cf f → CodeAction cf f

theorem acts_schEraseNodesCheck : Acts EraseAction schEraseNodesCheck := by
  refine .bind (.read .read) fun flag => ?_
  split
  · refine .bind (.modify .beginErase) fun _ => ?_
    refine .bind (.atomically .skipErase) fun psm => ?_
    split
    · refine .bind (.atomically .eraseIfEmpty) fun empty => ?_
      split
      · exact .ret _
      · exact .modify .eraseWakeNeighbors
    · exact .ret _
  · exact .ret _

theorem acts_powersave (ps : Bool) : Acts CommandAction (powersave ps) := by
  refine .bind (.read .read) fun cmd => ?_
  split
  · refine .bind (.read .read) fun toSleep => ?_
    split
    · exact .bind (.modify .setTransitToSleep) fun _ => .ret _
    · refine .bind (.read .read) fun toWake => ?_
      split
      · exact .bind (.modify .setTransitToWake) fun _ => .ret _
      · exact .ret _
  · exact .ret _

theorem acts_powersave_clear (ps : Bool) :
    Acts CommandAction (powersave ps >>= fun _ => Prog.modify clearUpdateMask) :=
  .bind (acts_powersave ps) fun _ => .modify .clearUpdateMask

theorem acts_schPowersaveCheck : Acts PowerAction schPowersaveCheck := by
  refine .bind (.read (.command .read)) fun mask => ?_
  split
  · refine .bind (.read (.command .read)) fun mask' => ?_
    split
    · refine .bind (.modify .fallAsleep) fun _ => ?_
      exact Acts.mono (acts_powersave_clear true) fun _ => .command
    · exact Acts.mono (acts_powersave_clear false) fun _ => .command
  · exact .ret _

theorem acts_opTx (kind : TxKind) (f : SkBuff) : Acts SubmitAction (opTx kind f) := by
  refine .bind (.atomically (.observe f)) fun started => ?_
  split
  · refine .bind (.read .read) fun prepared => ?_
    split
    · refine .bind (.bind (.read .read) fun data => .bind (.read .read) fun started => ?_)
        fun _ => .ret _
      split
      · refine .bind (.read .read) fun empty => ?_
        split
        · refine .bind (.modify (.setTxAsyncLock _)) fun _ => ?_
          refine .bind (.atomically (.sendData kind f)) fun result => ?_
          split
          · exact .ret _
          · exact .modify (.setTxAsyncLock _)
        · exact .ret _
      · exact .ret _
    · exact .ret _
  · exact .ret _

variable (cf : Conf)

theorem acts_ieee80211OpScheduler : Acts (CreateAction cf) (ieee80211OpScheduler cf) := by
  refine .bind (.read .read) fun create => ?_
  split
  · refine .bind (.modify .clearCreateAtimsFlag) fun _ => ?_
    refine .bind (.read .read) fun txQueue => ?_
    split
    · refine .forEach (fun packet => .bind (.read .read) fun known => ?_) txQueue
      split
      · exact .ret _
      · exact .modify (.addAtim _ _)
    · refine .forEach (fun packet => .bind (.read .read) fun known => ?_) txQueue
      split
      · exact .ret _
      · exact .modify (.addAtim _ _)
    · exact .ret _
  · exact .ret _

theorem acts_startXmit (da nextHop : MacAddr) :
    Acts (CreateAction cf) (startXmit cf da nextHop) :=
  .modify (.addData da nextHop)

theorem acts_asyncTx (kind : TxKind) : Acts SendAction (asyncTx cf kind) := by
  refine .bind (.read (.submit .read)) fun lock => ?_
  split
  · exact .ret _
  · refine .bind (.read (.submit .read)) fun txQueue => ?_
    split
    · exact .ret _
    · refine .bind (.read (.submit .read)) fun asleep => ?_
      refine .bind (.read (.submit .read)) fun psm => ?_
      refine .bind (.read (.submit .read)) fun psm' => ?_
      split
      · exact .ret _
      · refine .bind (.modify (.setQueue _ _)) fun _ => ?_
        refine .bind (Acts.mono (acts_opTx kind _) fun _ => .submit) fun _ => ?_
        exact .modify (.setQueue _ _)

theorem acts_schTxSoftBeacon : Acts SubmitAction (schTxSoftBeacon cf) := by
  refine .bind (.read .read) fun flag => ?_
  split
  · refine .bind (.bind (.read .read) fun lock => ?_) fun result => ?_
    · split
      · exact .ret _
      · refine .bind (.atomically .allocBeaconBuffer) fun buffer => ?_
        split
        · exact .ret _
        · exact acts_opTx _ _
    · split
      · exact .modify .clearSendSoftBcnFlag
      · exact .ret _
  · exact .ret _

theorem acts_isRemoteDaAwake {P : (State → State) → Prop} (hid : P id) (da : MacAddr) :
    Acts P (isRemoteDaAwake da) := by
  refine .bind (.read hid) fun psm => ?_
  split
  · exact .ret _
  · exact .read hid

theorem acts_isDAAwake {P : (State → State) → Prop} {selecting : Bool} (hid : P id)
    (hmark : P (markSelected selecting)) (packet : SkBuff) :
    Acts P (isDAAwake selecting packet) := by
  refine .bind (acts_isRemoteDaAwake hid _) fun awake => ?_
  split
  · exact .bind (.atomically hmark) fun _ => .ret _
  · exact .ret _

theorem acts_notWaiting {P : (State → State) → Prop} (hid : P id) : Acts P notWaiting :=
  .bind (.read hid) fun _ => .bind (.read hid) fun _ => .ret _

theorem acts_psmCanSendFirstAtim : Acts PickAction psmCanSendFirstAtim := by
  refine .bind (.read .read) fun queue => ?_
  split
  · exact .ret _
  · refine .bind (.findIndex (fun atim => ?_) _ _) fun found => ?_
    · exact .bind (acts_isDAAwake .read (.markSelected _) _) fun _ => .ret _
    · split
      · exact .ret _
      · exact .bind (.modify (.pruneAtims _ _)) fun _ => .ret _
      · exact .bind (.modify (.pruneAtims _ _)) fun _ => .ret _

theorem acts_psmCanSendFirstPkt {P : (State → State) → Prop} (hid : P id)
    (hmark : P (markSelected true)) (hout : ∀ queue i, P (takeOut queue i)) :
    Acts P psmCanSendFirstPkt := by
  refine .bind (.read hid) fun queue => ?_
  refine .bind (.findIndex (acts_isDAAwake hid hmark) _ _) fun found => ?_
  split
  · exact .ret _
  · exact .ret _
  · refine .bind (.atomically (hout _ _)) fun root => ?_
    split <;> exact .ret _

theorem acts_psmAsyncTxData {P : (State → State) → Prop} (hid : P id)
    (hmark : P (markSelected true)) (hout : ∀ queue i, P (takeOut queue i))
    (hwait : P startTxDataWait) (hover : ∀ f rest, P (handOver f rest))
    (hsend : ∀ f, SendAction f → P f) : Acts P (psmAsyncTxData cf) := by
  refine .bind (.read hid) fun psm => ?_
  split
  · exact .ret _
  · refine .bind (.read hid) fun psm' => ?_
    split
    · refine .bind (acts_notWaiting hid) fun free => ?_
      split
      · refine .bind (acts_psmCanSendFirstPkt hid hmark hout) fun queue => ?_
        split
        · exact .ret _
        · refine .bind (.modify hwait) fun _ => ?_
          refine .bind (.modify (hover _ _)) fun _ => ?_
          exact Acts.mono (acts_asyncTx cf .data) hsend
      · exact .ret _
    · exact .ret _

theorem acts_saveLastAtim {P : (State → State) → Prop} (hda : ∀ da, P (setLastAtimDA da))
    (ha3 : ∀ a3, P (setLastAtimA3 a3)) (atim : SkBuff) : Acts P (saveLastAtim cf atim) := by
  refine .bind (.modify (hda _)) fun _ => ?_
  split
  · exact .modify (ha3 _)
  · exact .ret _

theorem acts_psmAsyncTxMgmt : Acts MgmtAction (psmAsyncTxMgmt cf) := by
  refine .bind (Acts.mono acts_psmCanSendFirstAtim fun _ => .pick) fun queue => ?_
  split
  · exact .ret _
  · refine .bind (.modify (.send (.setQueue _ _))) fun _ => ?_
    refine .bind (acts_notWaiting (.pick .read)) fun free => ?_
    split
    · refine .bind (.modify .startTxAtimWait) fun _ => ?_
      refine .bind (acts_saveLastAtim cf .setLastAtimDA .setLastAtimA3 _) fun _ => ?_
      refine .bind (Acts.mono (acts_asyncTx cf .atim) fun _ => .send) fun _ => ?_
      exact .bind (.read (.pick .read)) fun _ => .modify (.setOffOverride _)
    · exact .ret _

theorem acts_schTxAtim : Acts TxAction (schTxAtim cf) := by
  refine .bind (.read (.mgmt (.pick .read))) fun asleep => ?_
  split
  · exact .ret _
  · refine .bind (.read (.mgmt (.pick .read))) fun atims => ?_
    split
    · exact .ret _
    · refine .bind (acts_notWaiting (.mgmt (.pick .read))) fun free => ?_
      split
      · exact Acts.mono (acts_psmAsyncTxMgmt cf) fun _ => .mgmt
      · exact .ret _

theorem acts_schTxData : Acts TxAction (schTxData cf) := by
  refine .bind (.read (.mgmt (.pick .read))) fun asleep => ?_
  split
  · exact .ret _
  · refine .bind (.read (.mgmt (.pick .read))) fun pkts => ?_
    split
    · exact .ret _
    · refine .bind (acts_notWaiting (.mgmt (.pick .read))) fun free => ?_
      split
      · split
        · exact acts_psmAsyncTxData cf (.mgmt (.pick .read)) (.mgmt (.pick (.markSelected _)))
            (fun _ _ => .mgmt (.pick (.takeOut _ _))) .startTxDataWait .handOver
            fun _ hf => .mgmt (.send hf)
        · exact Acts.mono (acts_asyncTx cf .data) fun _ hf => .mgmt (.send hf)
      · exact .ret _

theorem acts_schAsyncTxCheck : Acts TxAction (schAsyncTxCheck cf) := by
  refine .bind (.read (.mgmt (.pick .read))) fun asleep => ?_
  refine .bind (.read (.mgmt (.pick .read))) fun transit => ?_
  split
  · exact .ret _
  · refine .bind (.read (.mgmt (.pick .read))) fun pkts => ?_
    refine .bind (.read (.mgmt (.pick .read))) fun atims => ?_
    split
    · exact .ret _
    · refine .bind (.read (.mgmt (.pick .read))) fun psm => ?_
      split
      · exact acts_schTxAtim cf
      · refine .bind (.read (.mgmt (.pick .read))) fun psm' => ?_
        split
        · exact acts_schTxData cf
        · refine .bind (.read (.mgmt (.pick .read))) fun psm'' => ?_
          split
          · exact Acts.mono (acts_schTxSoftBeacon cf) fun _ hf => .mgmt (.send (.submit hf))
          · exact .ret _

/-- The transmit check is as good as the code of its branches, which end with `Q`.
`J` holds on the way to them, `A` is what the test for the ATIM window tells, and
`W` what the test of the two wait flags does. -/
theorem sat_schAsyncTxCheck_branches {r : Rely State} {J A W Q : State → Prop}
    (hrel : ∀ s t, J s → r.rel s t → J t) (hArel : ∀ s t, A s → r.rel s t → A t)
    (hQ : ∀ s, J s → Q s)
    (hwindow : ∀ s, r.inv s → J s → s.psmState = .atimWindow → A s)
    (hwait : ∀ s, r.inv s → J s →
      Sat r notWaiting (fun free t => J t ∧ (free = true → W t)) s)
    (hmgmt : ∀ s, r.inv s → J s → A s → Sat r (psmAsyncTxMgmt cf) (fun _ t => Q t) s)
    (hdata : ∀ s, r.inv s → J s → Sat r (psmAsyncTxData cf) (fun _ t => Q t) s)
    (hplain : ∀ s, r.inv s → J s → W s → Sat r (asyncTx cf .data) (fun _ t => Q t) s)
    (hsoft : ∀ s, r.inv s → J s → Sat r (schTxSoftBeacon cf) (fun _ t => Q t) s)
    {s : State} (hs : J s) : Sat r (schAsyncTxCheck cf) (fun _ t => Q t) s := by
  have hdone : ∀ t, J t → Sat r (pure () : Prog State Unit) (fun _ t => Q t) t :=
    fun t ht u htu _ => hQ u (hrel t u ht htu)
  have hfree : ∀ t, J t → A t → Sat r notWaiting (fun _ u => J u ∧ A u) t := by
    intro t ht hA
    exact (acts_notWaiting (P := (· = id)) rfl).sat_reads
      (fun u v hu huv => ⟨hrel u v hu.1 huv, hArel u v hu.2 huv⟩) ⟨ht, hA⟩
  have hatims : ∀ t, J t → A t → Sat r (schTxAtim cf) (fun _ t => Q t) t := by
    intro t ht hA
    refine Sat.read_bind fun u htu _ => ?_
    have hu := hrel t u ht htu
    split
    · exact hdone u hu
    · refine Sat.read_bind fun v huv hv => ?_
      have hJ := hrel u v hu huv
      have hAv := hArel u v (hArel t u hA htu) huv
      split
      · exact hdone v hJ
      · refine (hfree v hJ hAv).seq hv fun free w hw hJ => ?_
        split
        · exact hmgmt w hw hJ.1 hJ.2
        · exact hdone w hJ.1
  have hpkts : ∀ t, J t → Sat r (schTxData cf) (fun _ t => Q t) t := by
    intro t ht
    refine Sat.read_bind fun u htu _ => ?_
    have hu := hrel t u ht htu
    split
    · exact hdone u hu
    · refine Sat.read_bind fun v huv hv => ?_
      have hJ := hrel u v hu huv
      split
      · exact hdone v hJ
      · refine (hwait v hv hJ).seq hv fun free w hw hJ => ?_
        split
        next hfree =>
          split
          · exact hdata w hw hJ.1
          · exact hplain w hw hJ.1 (hJ.2 hfree)
        next => exact hdone w hJ.1
  refine Sat.read_bind fun t hst _ => Sat.read_bind fun u htu _ => ?_
  have hu := hrel t u (hrel s t hs hst) htu
  split
  · exact hdone u hu
  · refine Sat.read_bind fun v huv _ => Sat.read_bind fun w hvw _ => ?_
    have hw := hrel v w (hrel u v hu huv) hvw
    split
    · exact hdone w hw
    · refine Sat.read_bind fun x hwx hxinv => ?_
      have hx := hrel w x hw hwx
      split
      next hpsm => exact hatims x hx (hwindow x hxinv hx hpsm)
      next =>
        refine Sat.read_bind fun y hxy _ => ?_
        have hy := hrel x y hx hxy
        split
        · exact hpkts y hy
        · refine Sat.read_bind fun z hyz hz => ?_
          have hJ := hrel y z hy hyz
          split
          · exact hsoft z hz hJ
          · exact hdone z hJ

/-- The same where the branches keep `J` and the window does not matter. -/
theorem sat_schAsyncTxCheck {r : Rely State} {J W : State → Prop}
    (hrel : ∀ s t, J s → r.rel s t → J t)
    (hwait : ∀ s, r.inv s → J s →
      Sat r notWaiting (fun free t => J t ∧ (free = true → W t)) s)
    (hmgmt : ∀ s, r.inv s → J s → Sat r (psmAsyncTxMgmt cf) (fun _ t => J t) s)
    (hdata : ∀ s, r.inv s → J s → Sat r (psmAsyncTxData cf) (fun _ t => J t) s)
    (hplain : ∀ s, r.inv s → J s → W s → Sat r (asyncTx cf .data) (fun _ t => J t) s)
    (hsoft : ∀ s, r.inv s → J s → Sat r (schTxSoftBeacon cf) (fun _ t => J t) s)
    {s : State} (hs : J s) : Sat r (schAsyncTxCheck cf) (fun _ t => J t) s :=
  sat_schAsyncTxCheck_branches (A := fun _ => True) cf hrel (fun _ _ _ _ => trivial)
    (fun _ => id) (fun _ _ _ _ => trivial) hwait (fun s hs hJ _ => hmgmt s hs hJ) hdata hplain
    hsoft hs

section Awake

variable {r : Rely State} {K : State → Prop}

theorem markSelected_false (s : State) : markSelected false s = s := by
  simp [markSelected]

/-- Where interrupts only add to the awake list, a neighbour that was found there
is still there. -/
theorem sat_isRemoteDaAwake (hwake : ∀ s t, r.rel s t → s.wakeNeighbors ⊆ t.wakeNeighbors)
    (hK : ∀ s t, K s → r.rel s t → K t) (da : MacAddr) {s : State} (hs : K s) :
    Sat r (isRemoteDaAwake da)
      (fun awake t => K t ∧ (awake = true → da ∈ t.wakeNeighbors)) s := by
  refine Sat.read_bind fun t hst _ => ?_
  have ht := hK s t hs hst
  split
  · exact fun u htu _ => ⟨hK t u ht htu, fun hf => by cases hf⟩
  · refine fun u htu hu => ⟨hu, fun v huv _ => ?_⟩
    refine ⟨hK u v (hK t u ht htu) huv, fun hmem => ?_⟩
    exact hwake u v huv (of_decide_eq_true hmem)

theorem sat_isDAAwake (hwake : ∀ s t, r.rel s t → s.wakeNeighbors ⊆ t.wakeNeighbors)
    (hK : ∀ s t, K s → r.rel s t → K t) (f : SkBuff) {s : State} (hinv : r.inv s) (hs : K s) :
    Sat r (isDAAwake false f)
      (fun awake t => K t ∧ (awake = true → f.addr1 ∈ t.wakeNeighbors)) s := by
  refine (sat_isRemoteDaAwake hwake hK f.addr1 hs).seq hinv fun awake t _ ht => ?_
  split
  next hawake =>
    refine Sat.atomically_bind fun u htu hu => ?_
    rw [markSelected_false]
    refine ⟨hu, fun v huv _ => ⟨hK u v (hK t u ht.1 htu) huv, fun _ => ?_⟩⟩
    exact hwake u v huv (hwake t u htu (ht.2 hawake))
  next => exact fun u htu _ => ⟨hK t u ht.1 htu, fun hf => by cases hf⟩

/-- The ATIM frames that are dropped stood in front of the rest of the queue, and
their receivers were all awake. The queue that is handed back is the pruned one. -/
theorem sat_psmCanSendFirstAtim
    (hwake : ∀ s t, r.rel s t → s.wakeNeighbors ⊆ t.wakeNeighbors)
    (hqueue : ∀ s t, r.rel s t → t.txPendingAtims = s.txPendingAtims)
    (hK : ∀ s t, K s → r.rel s t → K t)
    (hprune : ∀ pruned rest s, r.inv s → K s → s.txPendingAtims = pruned ++ rest →
      (∀ f ∈ pruned, f.addr1 ∈ s.wakeNeighbors) →
      r.inv (pruneAtims pruned rest s) ∧ K (pruneAtims pruned rest s))
    {s : State} (hs : K s) :
    Sat r psmCanSendFirstAtim
      (fun found t => K t ∧ (found ≠ [] → t.txPendingAtims = found)) s := by
  have hback : ∀ (l : List SkBuff) (t : State), K t → t.txPendingAtims = l →
      Sat r (pure l : Prog State (List SkBuff))
        (fun found t => K t ∧ (found ≠ [] → t.txPendingAtims = found)) t := by
    intro l t ht hl u htu _
    refine ⟨hK t u ht htu, fun _ => ?_⟩
    rw [← hl]
    exact hqueue t u htu
  refine Sat.read_bind fun t hst htinv => ?_
  have ht := hK s t hs hst
  split
  next hnil => exact hback [] t ht hnil
  next =>
    let scanned (done : List SkBuff) (u : State) : Prop :=
      (K u ∧ u.txPendingAtims = t.txPendingAtims) ∧ ∀ f ∈ done, f.addr1 ∈ u.wakeNeighbors
    have hKq : ∀ u v : State, K u ∧ u.txPendingAtims = t.txPendingAtims → r.rel u v →
        K v ∧ v.txPendingAtims = t.txPendingAtims :=
      fun u v hu huv => ⟨hK u v hu.1 huv, (hqueue u v huv).trans hu.2⟩
    have hstable : ∀ done u v, scanned done u → r.rel u v → scanned done v :=
      fun done u v hu huv => ⟨hKq u v hu.1 huv, fun f hf => hwake u v huv (hu.2 f hf)⟩
    have htest : ∀ done f u, r.inv u → scanned done u →
        Sat r (isDAAwake false f >>= fun awake => pure !awake)
          (fun found v => if found = true then scanned done v else scanned (done ++ [f]) v) u := by
      intro done f u hu hdone
      refine (sat_isDAAwake hwake (hstable done) f hu hdone).seq hu fun awake v _ hv w hvw _ => ?_
      have hw := hstable done v w hv.1 hvw
      cases hawake : awake with
      | false => exact hw
      | true =>
          refine ⟨hw.1, fun g hg => ?_⟩
          rcases List.mem_append.mp hg with hg | hg
          · exact hw.2 g hg
          · rw [List.mem_singleton] at hg
            rw [hg]
            exact hwake v w hvw (hv.2 hawake)
    refine (Sat.findIndex_before htest hstable t.txPendingAtims [] 0 rfl htinv
      ⟨⟨ht, rfl⟩, nofun⟩).seq htinv fun found u _ hu => ?_
    rw [List.nil_append] at hu
    split
    · exact hback _ u hu.1.1 hu.1.2
    next i =>
      refine Sat.modify_bind fun v huv hv => ?_
      have hscan := hstable _ u v hu huv
      have hsplit := (List.take_append_drop (i + 1) t.txPendingAtims).symm
      have hnext := hprune _ _ v hv hscan.1.1 (hscan.1.2.trans hsplit) hscan.2
      exact ⟨hnext.1, hback _ _ hnext.2 rfl⟩
    · refine Sat.modify_bind fun v huv hv => ?_
      have hscan := hstable _ u v hu huv
      have hsplit := (List.append_nil t.txPendingAtims).symm
      have hnext := hprune _ _ v hv hscan.1.1 (hscan.1.2.trans hsplit) hscan.2
      exact ⟨hnext.1, hback _ _ hnext.2 rfl⟩

end Awake

theorem acts_psmAddAwakeNode (sa : MacAddr) (received : Nat) :
    Acts (RxAction cf) (psmAddAwakeNode sa received) := by
  refine .bind (.read (.create .read)) fun payload => ?_
  split
  · refine .bind (.read (.create .read)) fun last => ?_
    refine .bind (.read (.create .read)) fun node => ?_
    split
    · exact .modify (.storeAwakeNode _ _ _)
    · split
      · exact .modify (.cutAwakeNodes _)
      · exact .ret _
  · exact .ret _

theorem acts_rxListSender (sa : MacAddr) (received : Nat) :
    Acts (RxAction cf) (rxListSender sa received) := by
  refine .bind (acts_isRemoteDaAwake (.create .read) _) fun awake => ?_
  split
  · exact .ret _
  · exact acts_psmAddAwakeNode cf _ _

theorem acts_mhPsmHandleAtimPacket (mgmt : AtimMgmt) :
    Acts (CreateAction cf) (mhPsmHandleAtimPacket cf mgmt) := by
  unfold mhPsmHandleAtimPacket
  split
  · exact .ret _
  · split
    · exact .ret _
    · refine .bind (acts_isRemoteDaAwake .read _) fun awake => ?_
      split
      · exact .ret _
      · refine .bind (.read .read) fun pending => ?_
        split
        · exact .ret _
        · split
          · exact .ret _
          · exact .modify (.addAtim _ _)

theorem acts_rxHandleATIMPkt (mgmt : AtimMgmt) (received : Nat) :
    Acts (RxAction cf) (rxHandleATIMPkt cf mgmt received) := by
  refine .bind (.read (.create .read)) fun override => ?_
  refine .bind (.modify (.setOffOverride _)) fun _ => ?_
  refine .bind (acts_rxListSender cf _ _) fun _ => ?_
  split
  · exact .ret _
  · split
    · exact Acts.mono (acts_mhPsmHandleAtimPacket cf mgmt) fun _ => .create
    · exact .ret _

theorem acts_schAsyncRxCheck : Acts (RxAction cf) (schAsyncRxCheck cf) := by
  refine .bind (.read (.create .read)) fun pending => ?_
  split
  · exact .ret _
  · refine .bind (.read (.create .read)) fun psm => ?_
    split
    · exact .ret _
    · refine .bind (.read (.create .read)) fun next => ?_
      split
      · refine .bind ?_ fun _ => .modify .dropRxHead
        refine .bind (.read (.create .read)) fun psm => .bind (.read (.create .read)) fun psm' => ?_
        split
        · exact .ret _
        · split
          · split
            · exact acts_rxHandleATIMPkt cf _ _
            · exact .ret _
          · exact .ret _
      · exact .modify .dropRxHead

theorem acts_body (k : Call) : Acts (CodeAction cf) ((machine cf).body k) := by
  cases k with
  | opScheduler =>
      refine .bind (Acts.mono acts_schEraseNodesCheck fun _ => .erase) fun _ => ?_
      refine .bind (Acts.mono acts_schPowersaveCheck fun _ => .power) fun _ => ?_
      refine .bind (Acts.mono (acts_schAsyncTxCheck cf) fun _ => .tx) fun _ => ?_
      exact Acts.mono (acts_schAsyncRxCheck cf) fun _ => .rx
  | ieee80211OpScheduler => exact Acts.mono (acts_ieee80211OpScheduler cf) fun _ => .create
  | startXmit da nextHop => exact Acts.mono (acts_startXmit cf da nextHop) fun _ => .create

end Calipso.Ar9170
