import Calipso.Ar9170.Psm.Announcement

/-!
# How a packet leaves its queue

A data packet leaves the queue of pending packets when `ar9170_async_tx` has
passed it to `ar9170_op_tx`, whatever came of that: the packet that could not be
prepared or submitted is erased and not tried again. An ATIM frame leaves its
queue in the same way, or because its receiver is known to be awake. Where
`ar9170_async_tx` returns early the queue stays as it is.
-/

namespace Calipso.Ar9170

open Interrupt

variable (cf : Conf)

/-- The frames ever appended to the queue. -/
def State.queued (s : State) : TxKind → List SkBuff
  | .data => s.queuedPkts
  | .atim => s.queuedAtims
  | .beacon => []

/-- Why the frame is not in its queue any more. -/
def State.gone (s : State) (kind : TxKind) (f : SkBuff) : Prop :=
  .opTx (restoreA3 cf kind f) ∈ s.trace ∨
  match kind with
  | .data => .packetLost (some f) ∈ s.trace
  | .atim => ∃ pruned awake, .atimsPruned pruned awake ∈ s.trace ∧ f ∈ pruned ∧ f.addr1 ∈ awake
  | .beacon => False

/-- Every frame ever appended to the queue is listed in `l`, or gone. -/
def State.keptIn (s : State) (kind : TxKind) (l : List SkBuff) : Prop :=
  ∀ f ∈ s.queued kind, f ∈ l ∨ s.gone cf kind f

/-- Every frame ever appended to a queue is still there, unchanged, or gone. -/
def State.accounted (s : State) : Prop :=
  ∀ kind, s.keptIn cf kind (s.queue kind)

/-- Every data packet ever appended to the queue is still there or was submitted
to the bulk-OUT endpoint. -/
def State.lossless (s : State) : Prop :=
  ∀ f ∈ s.queuedPkts, f ∈ s.txPendingPkts ∨ ∃ tr ∈ s.sent, tr.frame.skb = f.skb

variable {cf}

theorem restoreA3_atim (f : SkBuff) : restoreA3 cf .atim f = f := by
  simp [restoreA3]

theorem State.gone.mono {s t : State} {kind : TxKind} {f : SkBuff} (h : s.gone cf kind f)
    (hst : s.trace ⊆ t.trace) : t.gone cf kind f := by
  rcases h with h | h
  · exact .inl (hst h)
  · right
    cases kind with
    | data => exact hst h
    | atim =>
        obtain ⟨pruned, awake, hmem, hf⟩ := h
        exact ⟨pruned, awake, hst hmem, hf⟩
    | beacon => exact h

theorem State.keptIn.mono {s t : State} {kind : TxKind} {l : List SkBuff}
    (h : s.keptIn cf kind l) (hq : t.queued kind = s.queued kind) (hst : s.trace ⊆ t.trace) :
    t.keptIn cf kind l := by
  intro f hf
  rw [hq] at hf
  exact (h f hf).imp id fun hg => hg.mono hst

/-- The rely of the main loop: interrupts leave the queues alone, and only add to
the awake list and to the history. -/
def handoverRely : Rely State where
  inv := fun _ => True
  rel := fun s t => (∀ kind, t.queue kind = s.queue kind) ∧ (∀ kind, t.queued kind = s.queued kind) ∧
    s.trace ⊆ t.trace ∧ s.wakeNeighbors ⊆ t.wakeNeighbors
  refl := fun _ => ⟨fun _ => rfl, fun _ => rfl, List.Subset.refl _, List.Subset.refl _⟩
  trans := fun h h' => ⟨fun kind => (h'.1 kind).trans (h.1 kind),
    fun kind => (h'.2.1 kind).trans (h.2.1 kind), List.Subset.trans h.2.2.1 h'.2.2.1,
    List.Subset.trans h.2.2.2 h'.2.2.2⟩

theorem keptIn_stable {s t : State} {kind : TxKind} {l : List SkBuff}
    (h : s.keptIn cf kind l) (hst : handoverRely.rel s t) : t.keptIn cf kind l :=
  h.mono (hst.2.1 kind) hst.2.2.1

theorem accounted_stable {s t : State} (h : s.accounted cf) (hst : handoverRely.rel s t) :
    t.accounted cf := by
  intro kind
  rw [hst.1 kind]
  exact keptIn_stable (h kind) hst

theorem State.accounted.grow {s t : State} (h : s.accounted cf)
    (hq : ∀ kind, t.queue kind = s.queue kind) (hqueued : ∀ kind, t.queued kind = s.queued kind)
    (htrace : s.trace ⊆ t.trace) : t.accounted cf := by
  intro kind
  rw [hq kind]
  exact (h kind).mono (hqueued kind) htrace

section MainLoop

/-- The update leaves the queues alone and does not shorten the history. -/
structure KeepsQueues (s t : State) : Prop where
  queue : ∀ kind, t.queue kind = s.queue kind
  queued : ∀ kind, t.queued kind = s.queued kind
  trace : s.trace ⊆ t.trace

theorem KeepsQueues.of_eq {s t : State} (hp : t.txPendingPkts = s.txPendingPkts)
    (ha : t.txPendingAtims = s.txPendingAtims) (hqp : t.queuedPkts = s.queuedPkts)
    (hqa : t.queuedAtims = s.queuedAtims) (ht : s.trace ⊆ t.trace) : KeepsQueues s t := by
  refine ⟨fun kind => ?_, fun kind => ?_, ht⟩
  · cases kind
    · exact hp
    · exact ha
    · rfl
  · cases kind
    · exact hqp
    · exact hqa
    · rfl

theorem KeepsQueues.refl (s : State) : KeepsQueues s s :=
  ⟨fun _ => rfl, fun _ => rfl, List.Subset.refl _⟩

theorem KeepsQueues.accounted {s t : State} (h : KeepsQueues s t) (hs : s.accounted cf) :
    t.accounted cf :=
  hs.grow h.queue h.queued h.trace

theorem KeepsQueues.keptIn {s t : State} (h : KeepsQueues s t) {kind : TxKind}
    {l : List SkBuff} (hs : s.keptIn cf kind l) : t.keptIn cf kind l :=
  hs.mono (h.queued kind) h.trace

theorem EraseAction.keepsQueues {f : State → State} (hf : EraseAction f) (s : State) :
    KeepsQueues s (f s) := by
  cases hf
  case skipErase => unfold Ar9170.skipErase; split <;> exact .of_eq rfl rfl rfl rfl fun _ h => h
  case eraseIfEmpty =>
    unfold Ar9170.eraseIfEmpty
    split <;> exact .of_eq rfl rfl rfl rfl fun _ h => h
  all_goals exact .of_eq rfl rfl rfl rfl fun _ h => h

theorem PowerAction.keepsQueues {f : State → State} (hf : PowerAction f) (s : State) :
    KeepsQueues s (f s) := by
  cases hf with
  | command hf => cases hf <;> exact .of_eq rfl rfl rfl rfl fun _ h => h
  | fallAsleep => exact .of_eq rfl rfl rfl rfl (List.subset_cons_self _ _)

theorem SubmitAction.keepsQueues {f : State → State} (hf : SubmitAction f) (s : State) :
    KeepsQueues s (f s) := by
  cases hf
  case observe f => exact .of_eq rfl rfl rfl rfl (List.subset_cons_self _ _)
  case sendData kind f =>
    unfold Ar9170.sendData
    split <;> exact .of_eq rfl rfl rfl rfl fun _ h => h
  case allocBeaconBuffer =>
    unfold Ar9170.allocBeaconBuffer
    split <;> exact .of_eq rfl rfl rfl rfl fun _ h => h
  all_goals exact .of_eq rfl rfl rfl rfl fun _ h => h

/-- A frame that is taken into a queue is listed there. -/
theorem State.accounted.append {s t : State} {q : TxKind} {f : SkBuff}
    (h : s.accounted cf) (hqueue : t.queue q = s.queue q ++ [f])
    (hqueued : t.queued q = s.queued q ++ [f])
    (hother : ∀ k, k ≠ q → t.queue k = s.queue k ∧ t.queued k = s.queued k)
    (htrace : t.trace = s.trace) : t.accounted cf := by
  have hsub : s.trace ⊆ t.trace := by
    rw [htrace]
    exact List.Subset.refl _
  intro k
  by_cases hk : k = q
  · subst hk
    intro g hg
    rw [hqueued, List.mem_append, List.mem_singleton] at hg
    rw [hqueue, List.mem_append, List.mem_singleton]
    rcases hg with hg | hg
    · exact (h k g hg).imp .inl fun hgone => hgone.mono hsub
    · exact .inl (.inr hg)
  · obtain ⟨hq, hqd⟩ := hother k hk
    rw [hq]
    exact (h k).mono hqd hsub

theorem accounted_addPendingPkt {s : State} (h : s.accounted cf) (f : SkBuff) :
    (addPendingPkt f s).accounted cf := by
  unfold addPendingPkt
  split
  · refine h.append (q := .data) (f := f) rfl rfl (fun k hk => ?_) rfl
    cases k with
    | data => exact absurd rfl hk
    | atim => exact ⟨rfl, rfl⟩
    | beacon => exact ⟨rfl, rfl⟩
  · exact h

theorem accounted_addPendingAtim {s : State} (h : s.accounted cf) (f : SkBuff) :
    (addPendingAtim f s).accounted cf := by
  unfold addPendingAtim
  split
  · refine h.append (q := .atim) (f := f) rfl rfl (fun k hk => ?_) rfl
    cases k with
    | data => exact ⟨rfl, rfl⟩
    | atim => exact absurd rfl hk
    | beacon => exact ⟨rfl, rfl⟩
  · exact h

theorem CreateAction.accounted {f : State → State} (hf : CreateAction cf f) {s : State}
    (h : s.accounted cf) : (f s).accounted cf := by
  cases hf with
  | read => exact h
  | clearCreateAtimsFlag => exact (KeepsQueues.of_eq rfl rfl rfl rfl fun _ h => h).accounted h
  | addAtim da a3 =>
      unfold Ar9170.addAtim
      split
      · have hadd := accounted_addPendingAtim h
          ⟨s.nextSkb, da, if cf.psMode = .mhPsm then a3.getD 0 else cf.ibssBssid⟩
        exact (KeepsQueues.of_eq rfl rfl rfl rfl fun _ h => h).accounted hadd
      · exact h
  | addData da nextHop =>
      unfold Ar9170.addData
      split
      · have hadd := accounted_addPendingPkt h
          ⟨s.nextSkb, nextHop, if cf.psMode = .mhPsm then da else cf.vifBssid⟩
        exact (KeepsQueues.of_eq rfl rfl rfl rfl fun _ h => h).accounted hadd
      · exact h

theorem RxAction.accounted {f : State → State} (hf : RxAction cf f) {s : State}
    (h : s.accounted cf) : (f s).accounted cf := by
  cases hf with
  | create hf => exact hf.accounted h
  | setOffOverride => exact (KeepsQueues.of_eq rfl rfl rfl rfl fun _ h => h).accounted h
  | storeAwakeNode last sa received =>
      have hkeep : KeepsQueues s (Ar9170.storeAwakeNode last sa received s) :=
        .of_eq rfl rfl rfl rfl (List.subset_cons_self _ _)
      exact hkeep.accounted h
  | cutAwakeNodes => exact (KeepsQueues.of_eq rfl rfl rfl rfl fun _ h => h).accounted h
  | dropRxHead => exact (KeepsQueues.of_eq rfl rfl rfl rfl fun _ h => h).accounted h

/-- The frame at the head of the queue is on its way: it is counted neither as
listed nor as gone. -/
def State.inTransit (cf : Conf) (s : State) (kind : TxKind) (l : List SkBuff) : Prop :=
  s.keptIn cf kind l ∧ ∀ k, k ≠ kind → s.keptIn cf k (s.queue k)

theorem inTransit_stable {s t : State} {kind : TxKind} {l : List SkBuff}
    (h : s.inTransit cf kind l) (hst : handoverRely.rel s t) : t.inTransit cf kind l := by
  refine ⟨keptIn_stable h.1 hst, fun k hk => ?_⟩
  rw [hst.1 k]
  exact keptIn_stable (h.2 k hk) hst

theorem KeepsQueues.inTransit {s t : State} (h : KeepsQueues s t) {kind : TxKind}
    {l : List SkBuff} (hs : s.inTransit cf kind l) : t.inTransit cf kind l := by
  refine ⟨h.keptIn hs.1, fun k hk => ?_⟩
  rw [h.queue k]
  exact h.keptIn (hs.2 k hk)

theorem State.accounted.inTransit {s : State} (h : s.accounted cf) (kind : TxKind) :
    s.inTransit cf kind (s.queue kind) :=
  ⟨h kind, fun k _ => h k⟩

theorem queue_setQueue {kind : TxKind} (hkind : kind ≠ .beacon) (l : List SkBuff) (s : State) :
    (setQueue kind l s).queue kind = l := by
  cases kind with
  | data => rfl
  | atim => rfl
  | beacon => exact absurd rfl hkind

theorem queue_setQueue_of_ne {kind k : TxKind} (hk : k ≠ kind) (l : List SkBuff) (s : State) :
    (setQueue kind l s).queue k = s.queue k := by
  cases kind <;> cases k <;> first | rfl | exact absurd rfl hk

theorem queued_setQueue (kind k : TxKind) (l : List SkBuff) (s : State) :
    (setQueue kind l s).queued k = s.queued k ∧ (setQueue kind l s).trace = s.trace := by
  cases kind <;> cases k <;> exact ⟨rfl, rfl⟩

theorem inTransit_setQueue {s : State} {kind : TxKind} {l : List SkBuff}
    (h : s.inTransit cf kind l) (l' : List SkBuff) :
    (setQueue kind l' s).inTransit cf kind l := by
  have hsub : s.trace ⊆ (setQueue kind l' s).trace := by
    rw [(queued_setQueue kind kind l' s).2]
    exact List.Subset.refl _
  refine ⟨h.1.mono (queued_setQueue kind kind l' s).1 hsub, fun k hk => ?_⟩
  rw [queue_setQueue_of_ne hk]
  exact (h.2 k hk).mono (queued_setQueue kind k l' s).1 hsub

/-- The queue is what the code has found it to be. -/
theorem accounted_setQueue {s : State} {kind : TxKind} {l : List SkBuff}
    (hkind : kind ≠ .beacon) (h : s.inTransit cf kind l) : (setQueue kind l s).accounted cf := by
  have ht := inTransit_setQueue h l
  intro k
  by_cases hk : k = kind
  · subst hk
    rw [queue_setQueue hkind]
    exact ht.1
  · exact ht.2 k hk

/-- `ar9170_op_tx` is called before anything else happens. -/
theorem sat_opTx_inTransit {kind : TxKind} {f : SkBuff} {rest : List SkBuff} {s : State}
    (h : s.inTransit cf kind (f :: rest)) :
    Sat handoverRely (opTx kind (restoreA3 cf kind f))
      (fun _ t => t.inTransit cf kind rest) s := by
  intro t hst _
  have ht := inTransit_stable h hst
  have hkeep : KeepsQueues t (observe (.opTx (restoreA3 cf kind f)) t) :=
    .of_eq rfl rfl rfl rfl (List.subset_cons_self _ _)
  have hgone : (observe (.opTx (restoreA3 cf kind f)) t).inTransit cf kind rest := by
    have hkept := hkeep.inTransit ht
    refine ⟨fun g hg => ?_, hkept.2⟩
    rcases hkept.1 g hg with hmem | hg'
    · rcases List.mem_cons.mp hmem with rfl | hrest
      · exact .inr (.inl List.mem_cons_self)
      · exact .inl hrest
    · exact .inr hg'
  refine ⟨trivial, ?_⟩
  exact ((acts_opTx kind (restoreA3 cf kind f)).2 t).sat
    (fun a u ha _ hu => ⟨trivial, (ha.keepsQueues u).inTransit hu⟩)
    (fun _ _ => inTransit_stable) hgone

/-- Either the queue is left alone, or its head has been passed to
`ar9170_op_tx`. -/
theorem sat_asyncTx_accounted (kind : TxKind) {s : State} (h : s.accounted cf) :
    Sat handoverRely (asyncTx cf kind) (fun _ t => t.accounted cf) s := by
  refine Sat.read_bind fun t hst _ => ?_
  have ht := accounted_stable h hst
  split
  · exact fun u htu _ => accounted_stable ht htu
  · refine Sat.read_bind fun u htu _ => ?_
    have hu := accounted_stable ht htu
    split
    · exact fun v huv _ => accounted_stable hu huv
    next f rest hq =>
      have hkind : kind ≠ .beacon := by
        rintro rfl
        cases hq
      refine Sat.read_bind fun v huv _ => Sat.read_bind fun w hvw _ =>
        Sat.read_bind fun x hwx _ => ?_
      have hx := accounted_stable (accounted_stable (accounted_stable hu huv) hvw) hwx
      split
      · exact fun y hxy _ => accounted_stable hx hxy
      · have htransit : x.inTransit cf kind (f :: rest) := by
          have hqueue : x.queue kind = f :: rest := by
            rw [hwx.1, hvw.1, huv.1]
            exact hq
          rw [← hqueue]
          exact hx.inTransit kind
        refine Sat.modify_bind fun y hxy _ => ⟨trivial, ?_⟩
        have hy := inTransit_setQueue (inTransit_stable htransit hxy)
          (restoreA3 cf kind f :: rest)
        refine (sat_opTx_inTransit hy).seq trivial fun _ z _ hz => ?_
        refine Sat.modify fun a hza _ => ⟨trivial, fun b hab _ => ?_⟩
        exact accounted_stable (accounted_setQueue hkind (inTransit_stable hz hza)) hab

/-- The ATIM frames looked at so far have receivers that are awake. -/
def State.scanned (cf : Conf) (queue done : List SkBuff) (s : State) : Prop :=
  s.accounted cf ∧ s.txPendingAtims = queue ∧ ∀ f ∈ done, f.addr1 ∈ s.wakeNeighbors

/-- Only frames whose receivers are awake are dropped. -/
theorem accounted_pruneAtims {pruned rest queue : List SkBuff} {s : State}
    (h : s.scanned cf queue pruned) (hsplit : queue = pruned ++ rest) :
    (pruneAtims pruned rest s).accounted cf := by
  have hsub : s.trace ⊆ (pruneAtims pruned rest s).trace := List.subset_cons_self _ _
  intro kind
  cases kind with
  | data => exact (h.1 .data).mono rfl hsub
  | beacon => exact (h.1 .beacon).mono rfl hsub
  | atim =>
      intro f hf
      rcases h.1 .atim f hf with hmem | hgone
      · rw [show s.queue .atim = pruned ++ rest from h.2.1.trans hsplit] at hmem
        rcases List.mem_append.mp hmem with hp | hr
        · exact .inr (.inr ⟨pruned, s.wakeNeighbors, List.mem_cons_self, hp, h.2.2 f hp⟩)
        · exact .inl hr
      · exact .inr (hgone.mono hsub)

/-- The queue that is handed back is the pruned one. -/
theorem sat_psmCanSendFirstAtim_accounted {s : State} (h : s.accounted cf) :
    Sat handoverRely psmCanSendFirstAtim
      (fun found t => t.accounted cf ∧ (found ≠ [] → t.txPendingAtims = found)) s :=
  sat_psmCanSendFirstAtim (r := handoverRely) (fun _ _ hst => hst.2.2.2)
    (fun _ _ hst => hst.1 .atim) (fun _ _ => accounted_stable)
    (fun _ _ _ _ ht hsplit hawake => ⟨trivial, accounted_pruneAtims ⟨ht, rfl, hawake⟩ hsplit⟩) h

theorem keepsQueues_markSelected (selecting : Bool) (s : State) :
    KeepsQueues s (markSelected selecting s) := by
  unfold markSelected
  split
  · exact .of_eq rfl rfl rfl rfl fun _ h => h
  · exact .refl s

theorem mem_eraseIdx_or {l : List SkBuff} {f : SkBuff} (hf : f ∈ l) (i : Nat) :
    f ∈ l.eraseIdx i ∨ l[i]? = some f := by
  induction l generalizing i with
  | nil => cases hf
  | cons a l ih =>
      cases i with
      | zero =>
          rcases List.mem_cons.mp hf with rfl | hf
          · exact .inr rfl
          · exact .inl hf
      | succ i =>
          rcases List.mem_cons.mp hf with rfl | hf
          · exact .inl List.mem_cons_self
          · exact (ih hf i).imp (List.mem_cons_of_mem a) id

/-- The queue that is handed back holds every packet that is not gone. -/
def State.pktsFound (cf : Conf) (found : List SkBuff) (s : State) : Prop :=
  if found = [] then s.accounted cf else s.inTransit cf .data found

theorem pktsFound_stable {found : List SkBuff} {s t : State} (h : s.pktsFound cf found)
    (hst : handoverRely.rel s t) : t.pktsFound cf found := by
  unfold State.pktsFound at h ⊢
  split at h
  next hnil =>
    rw [if_pos hnil]
    exact accounted_stable h hst
  next hne =>
    rw [if_neg hne]
    exact inTransit_stable h hst

/-- The packet that is taken out comes to the front, or it is lost for want of
memory. -/
theorem sat_moveToFront_pktsFound {queue : List SkBuff} {i : Nat} {s : State}
    (h : s.inTransit cf .data queue) :
    Sat handoverRely (moveToFront queue i) (fun found t => t.pktsFound cf found) s := by
  refine Sat.atomically_bind fun t hst _ => ⟨trivial, ?_⟩
  have ht := inTransit_stable h hst
  have hother : ∀ u : State, u.txPendingAtims = t.txPendingAtims →
      u.queuedAtims = t.queuedAtims → t.trace ⊆ u.trace →
      ∀ k, k ≠ .data → u.keptIn cf k (u.queue k) := by
    intro u hq hqueued hsub k hk
    cases k with
    | data => exact absurd rfl hk
    | atim =>
        rw [show u.queue .atim = t.queue .atim from hq]
        exact (ht.2 .atim hk).mono hqueued hsub
    | beacon => exact (ht.2 .beacon hk).mono rfl hsub
  cases hroot : t.env.mallocOk with
  | false =>
      have hout : takeOut queue i t = { t with
          txPendingPkts := queue.eraseIdx i
          selected := false
          trace := .packetLost queue[i]? :: t.trace } := if_neg (by simp [hroot])
      have hsub : t.trace ⊆ (takeOut queue i t).trace := by
        rw [hout]
        exact List.subset_cons_self _ _
      have hrest := hother (takeOut queue i t) (by rw [hout]) (by rw [hout]) hsub
      intro u htu _
      refine pktsFound_stable ?_ htu
      intro k
      cases hk : k with
      | data =>
          intro f hf
          rw [hout] at hf
          rcases ht.1 f hf with hmem | hgone
          · rcases mem_eraseIdx_or hmem i with hin | hat
            · left
              rw [hout]
              exact hin
            · refine .inr (.inr ?_)
              rw [hout, hat]
              exact List.mem_cons_self
          · exact .inr (hgone.mono hsub)
      | atim => exact hrest .atim (by decide)
      | beacon => exact hrest .beacon (by decide)
  | true =>
      have hout : takeOut queue i t = { t with txPendingPkts := queue.eraseIdx i } :=
        if_pos hroot
      rw [hout]
      have hrest := hother { t with txPendingPkts := queue.eraseIdx i } rfl rfl
        (List.Subset.refl _)
      cases hat : queue[i]? with
      | none =>
          intro u htu _
          refine pktsFound_stable (s := { t with txPendingPkts := queue.eraseIdx i }) ?_ htu
          intro k
          by_cases hk : k = .data
          · subst hk
            intro f hf
            refine (ht.1 f hf).imp (fun hmem => ?_) fun hg => hg.mono (List.Subset.refl _)
            rcases mem_eraseIdx_or hmem i with hin | hat'
            · exact hin
            · rw [hat] at hat'
              cases hat'
          · exact hrest k hk
      | some packet =>
          intro u htu _
          refine pktsFound_stable (s := { t with txPendingPkts := queue.eraseIdx i }) ?_ htu
          refine ⟨fun f hf => ?_, hrest⟩
          refine (ht.1 f hf).imp (fun hmem => ?_) fun hg => hg.mono (List.Subset.refl _)
          rcases mem_eraseIdx_or hmem i with hin | hat'
          · exact List.mem_cons_of_mem packet hin
          · rw [hat] at hat'
            cases hat'
            exact List.mem_cons_self

theorem sat_psmCanSendFirstPkt_pktsFound {s : State} (h : s.accounted cf) :
    Sat handoverRely psmCanSendFirstPkt (fun found t => t.pktsFound cf found) s := by
  refine Sat.read_bind fun t hst _ => ?_
  have ht := accounted_stable h hst
  have hscan : ∀ u v : State, u.accounted cf ∧ u.txPendingPkts = t.txPendingPkts →
      handoverRely.rel u v → v.accounted cf ∧ v.txPendingPkts = t.txPendingPkts := by
    intro u v hu huv
    refine ⟨accounted_stable hu.1 huv, ?_⟩
    rw [← hu.2]
    exact huv.1 .data
  refine Sat.seq (J := fun _ u => u.accounted cf ∧ u.txPendingPkts = t.txPendingPkts)
    ?_ trivial fun found u _ hu => ?_
  · have hkeep : ∀ f, Acts (fun g => ∀ s, KeepsQueues s (g s)) (isDAAwake true f) :=
      acts_isDAAwake KeepsQueues.refl (keepsQueues_markSelected true)
    refine (Acts.findIndex hkeep _ _).sat
      (fun g u hg _ hu => ⟨trivial, (hg u).accounted hu.1, ?_⟩) hscan ⟨ht, rfl⟩
    rw [← hu.2]
    exact (hg u).queue .data
  · have htransit : u.inTransit cf .data t.txPendingPkts := by
      rw [← hu.2]
      exact hu.1.inTransit .data
    split
    · exact fun v huv _ => accounted_stable hu.1 huv
    · intro v huv _
      refine pktsFound_stable ?_ huv
      unfold State.pktsFound
      split
      · exact hu.1
      · exact htransit
    · exact sat_moveToFront_pktsFound htransit

theorem keepsQueues_wait (s : State) :
    KeepsQueues s (startTxAtimWait s) ∧ KeepsQueues s (startTxDataWait s) :=
  ⟨.of_eq rfl rfl rfl rfl fun _ h => h, .of_eq rfl rfl rfl rfl fun _ h => h⟩

theorem sat_psmAsyncTxData_accounted {s : State} (h : s.accounted cf) :
    Sat handoverRely (psmAsyncTxData cf) (fun _ t => t.accounted cf) s := by
  refine Sat.read_bind fun t hst _ => ?_
  have ht := accounted_stable h hst
  split
  · exact fun u htu _ => accounted_stable ht htu
  · refine Sat.read_bind fun u htu _ => ?_
    have hu := accounted_stable ht htu
    split
    · refine Sat.seq (J := fun _ v => v.accounted cf) ?_ trivial fun free v _ hv => ?_
      · exact (acts_notWaiting (P := (· = id)) rfl).sat_reads (fun _ _ => accounted_stable) hu
      · split
        · refine (sat_psmCanSendFirstPkt_pktsFound hv).seq trivial fun found w _ hw => ?_
          split
          · exact fun x hwx _ => accounted_stable hw hwx
          next f rest =>
            have hw' : w.inTransit cf .data (f :: rest) := hw
            refine Sat.modify_bind fun x hwx _ => ⟨trivial, ?_⟩
            have hx := (keepsQueues_wait x).2.inTransit (inTransit_stable hw' hwx)
            refine Sat.modify_bind fun y hxy _ => ⟨trivial, ?_⟩
            have hy := accounted_setQueue (by decide) (inTransit_stable hx hxy)
            have hkeep : KeepsQueues (setQueue .data (f :: rest) y) (handOver f rest y) :=
              .of_eq rfl rfl rfl rfl (List.subset_cons_self _ _)
            exact sat_asyncTx_accounted .data (hkeep.accounted hy)
        · exact fun w hvw _ => accounted_stable hv hvw
    · exact fun v huv _ => accounted_stable hu huv

theorem sat_psmAsyncTxMgmt_accounted {s : State} (h : s.accounted cf) :
    Sat handoverRely (psmAsyncTxMgmt cf) (fun _ t => t.accounted cf) s := by
  refine (sat_psmCanSendFirstAtim_accounted h).seq trivial fun found t _ ht => ?_
  split
  · exact fun u htu _ => accounted_stable ht.1 htu
  next atim rest =>
    have hback := ht.2 (List.cons_ne_nil _ _)
    refine Sat.modify_bind fun u htu _ => ⟨trivial, ?_⟩
    have hu := accounted_stable ht.1 htu
    have hqueue : u.txPendingAtims = atim :: rest := by
      rw [← hback]
      exact htu.1 .atim
    have hu' : (setQueue .atim (atim :: rest) u).accounted cf := by
      refine accounted_setQueue (by decide) ?_
      rw [← show u.queue .atim = atim :: rest from hqueue]
      exact hu.inTransit .atim
    refine Sat.seq (J := fun _ v => v.accounted cf) ?_ trivial fun free v _ hv => ?_
    · exact (acts_notWaiting (P := (· = id)) rfl).sat_reads (fun _ _ => accounted_stable) hu'
    · split
      · refine Sat.modify_bind fun w hvw _ => ⟨trivial, ?_⟩
        have hw := (keepsQueues_wait w).1.accounted (accounted_stable hv hvw)
        refine Sat.seq (J := fun _ x => x.accounted cf) ?_ trivial fun _ x _ hx => ?_
        · have hkeep : Acts (fun g => ∀ s, KeepsQueues s (g s)) (saveLastAtim cf atim) :=
            acts_saveLastAtim cf (fun _ _ => .of_eq rfl rfl rfl rfl fun _ h => h)
              (fun _ _ => .of_eq rfl rfl rfl rfl fun _ h => h) atim
          exact hkeep.sat
            (fun g x hg _ hx => ⟨trivial, (hg x).accounted hx⟩) (fun _ _ => accounted_stable) hw
        · refine (sat_asyncTx_accounted .atim hx).seq trivial fun _ y _ hy => ?_
          refine Sat.read_bind fun z hyz _ => Sat.modify fun a hza _ => ⟨trivial, ?_⟩
          have ha := accounted_stable (accounted_stable hy hyz) hza
          have hkeep : ∀ override, KeepsQueues a (setOffOverride override a) :=
            fun _ => .of_eq rfl rfl rfl rfl fun _ h => h
          exact fun b hab _ => accounted_stable ((hkeep _).accounted ha) hab
      · exact fun w hvw _ => accounted_stable hv hvw

/-- Between the calls of the main loop every frame is accounted for. -/
theorem sat_call_accounted (k : Call) {s : State} (h : s.accounted cf) :
    Sat handoverRely ((machine cf).body k) (fun _ t => t.accounted cf) s := by
  cases k with
  | opScheduler =>
      have hkeep : ∀ {p : Prog State Unit} {t : State},
          Acts (fun g => ∀ s, KeepsQueues s (g s)) p → t.accounted cf →
          Sat handoverRely p (fun _ t => t.accounted cf) t := fun hp ht =>
        hp.sat (fun g u hg _ hu => ⟨trivial, (hg u).accounted hu⟩)
          (fun _ _ => accounted_stable) ht
      refine (hkeep (Acts.mono acts_schEraseNodesCheck fun _ hf s => hf.keepsQueues s) h).seq
        trivial fun _ t _ ht => ?_
      refine (hkeep (Acts.mono acts_schPowersaveCheck fun _ hf s => hf.keepsQueues s) ht).seq
        trivial fun _ u _ hu => ?_
      refine Sat.seq (J := fun _ v => v.accounted cf) ?_ trivial fun _ v _ hv => ?_
      · refine sat_schAsyncTxCheck (W := fun _ => True) cf (fun _ _ => accounted_stable)
          (fun s _ hs => ?_) (fun s _ hs => sat_psmAsyncTxMgmt_accounted hs)
          (fun s _ hs => sat_psmAsyncTxData_accounted hs)
          (fun s _ hs _ => sat_asyncTx_accounted .data hs) (fun s _ hs => ?_) hu
        · exact ((acts_notWaiting (P := (· = id)) rfl).sat_reads (fun _ _ => accounted_stable)
            hs).mono fun _ _ _ ht => ⟨ht, fun _ => trivial⟩
        · exact hkeep (Acts.mono (acts_schTxSoftBeacon cf) fun _ hf s => hf.keepsQueues s) hs
      · exact (acts_schAsyncRxCheck cf).sat
          (fun g w hg _ hw => ⟨trivial, hg.accounted hw⟩) (fun _ _ => accounted_stable) hv
  | ieee80211OpScheduler =>
      exact (acts_ieee80211OpScheduler cf).sat
        (fun g w hg _ hw => ⟨trivial, hg.accounted hw⟩) (fun _ _ => accounted_stable) h
  | startXmit da nextHop =>
      exact (acts_startXmit cf da nextHop).sat
        (fun g w hg _ hw => ⟨trivial, hg.accounted hw⟩) (fun _ _ => accounted_stable) h

end MainLoop

section Interrupts

theorem handoverRely_rel {s t : State} (hp : t.txPendingPkts = s.txPendingPkts)
    (ha : t.txPendingAtims = s.txPendingAtims) (hqp : t.queuedPkts = s.queuedPkts)
    (hqa : t.queuedAtims = s.queuedAtims) (ht : s.trace ⊆ t.trace)
    (hw : s.wakeNeighbors ⊆ t.wakeNeighbors) : handoverRely.rel s t := by
  have hkeep := KeepsQueues.of_eq hp ha hqp hqa ht
  exact ⟨hkeep.queue, hkeep.queued, ht, hw⟩

/-- No interrupt touches a queue. -/
theorem irq_handover {i : Irq} {s s' : State} (hi : irq cf i s = some s') :
    handoverRely.rel s s' := by
  have hsame : ∀ t : State, t.txPendingPkts = s.txPendingPkts →
      t.txPendingAtims = s.txPendingAtims → t.queuedPkts = s.queuedPkts →
      t.queuedAtims = s.queuedAtims → t.trace = s.trace → t.wakeNeighbors = s.wakeNeighbors →
      handoverRely.rel s t := by
    intro t hp ha hqp hqa ht hw
    refine handoverRely_rel hp ha hqp hqa ?_ ?_
    · rw [ht]
      exact List.Subset.refl _
    · rw [hw]
      exact List.Subset.refl _
  cases i with
  | preTbtt rfOn =>
      cases hi
      unfold rspPreTbtt
      split
      · unfold handlePs
        split
        · exact hsame _ rfl rfl rfl rfl rfl rfl
        · split
          · exact hsame _ rfl rfl rfl rfl rfl rfl
          · split <;> exact hsame _ rfl rfl rfl rfl rfl rfl
      · exact hsame _ rfl rfl rfl rfl rfl rfl
      · unfold clearWaitFlags
        rw [settle_eq]
        split <;> exact hsame _ rfl rfl rfl rfl rfl rfl
  | timer =>
      simp only [irq, timerFires] at hi
      obtain ⟨callback, -, rfl⟩ := Option.map_eq_some_iff.mp hi
      cases callback with
      | atimWindowStart => exact hsame _ rfl rfl rfl rfl rfl rfl
      | atimWindowEnd =>
          simp only [psmAtimWindowEnd]
          split
          · exact hsame _ rfl rfl rfl rfl rfl rfl
          · rcases psUpdate_cases cf { s with timer := none, psmState := .txWindow }
              with e | ⟨-, e⟩ | ⟨-, e⟩
            · rw [e]
              exact hsame _ rfl rfl rfl rfl rfl rfl
            · rw [e]
              exact handoverRely_rel rfl rfl rfl rfl (List.subset_cons_self _ _) fun _ h => h
            · rw [e]
              exact handoverRely_rel rfl rfl rfl rfl (List.subset_cons_self _ _) fun _ h => h
      | softBeaconTx =>
          simp only [psmSoftBeaconTx]
          split <;> exact hsame _ rfl rfl rfl rfl rfl rfl
  | txStatus st =>
      obtain ⟨-, rfl⟩ := irq_txStatus_eq_some hi
      unfold txProcessStatus txStatus
      split
      · exact hsame _ rfl rfl rfl rfl rfl rfl
      · split
        · split
          · have e := creditLastAtim_eq cf st
              (releaseTxAtimWait { s with reported := st.n :: s.reported })
            have hlist := subset_creditLastAtim cf st
              (releaseTxAtimWait { s with reported := st.n :: s.reported })
            rw [settle_eq]
            refine handoverRely_rel (congrArg State.txPendingPkts e :)
              (congrArg State.txPendingAtims e :) (congrArg State.queuedPkts e :)
              (congrArg State.queuedAtims e :) ?_ (hlist :)
            have htrace := (congrArg State.trace e :)
            refine List.Subset.trans ?_ (List.subset_cons_self _ _)
            rw [htrace]
            exact List.Subset.refl _
          · exact hsame _ rfl rfl rfl rfl rfl rfl
        · rw [settle_eq]
          exact hsame _ rfl rfl rfl rfl rfl rfl
  | txComp =>
      cases hi
      unfold txCompUnlock
      split <;> exact hsame _ rfl rfl rfl rfl rfl rfl
  | bulkOutDone => cases hi; exact hsame _ rfl rfl rfl rfl rfl rfl
  | beaconConfig =>
      cases hi
      unfold rspBeaconConfig
      split <;> exact hsame _ rfl rfl rfl rfl rfl rfl
  | rxAtim mgmt ok =>
      cases hi
      unfold scheduleHandleMpdu
      split <;> exact hsame _ rfl rfl rfl rfl rfl rfl
  | rxOther ok =>
      cases hi
      unfold scheduleHandleMpdu
      split <;> exact hsame _ rfl rfl rfl rfl rfl rfl
  | env e => cases hi; exact hsame _ rfl rfl rfl rfl rfl rfl

end Interrupts

/-- The data frame is passed to `ar9170_op_tx`, and the call runs to its end. -/
def packetDelivered : List (Label Irq Call) :=
  atimAcknowledged ++ [.irq .bulkOutDone, .irq .timer] ++ callFor .opScheduler 37

/-- There is no memory for the superframe of the data packet. -/
def preparationFails : List (Label Irq Call) :=
  atimAcknowledged ++ [.irq .bulkOutDone, .irq .timer] ++ callFor .opScheduler 29 ++
    [.irq (.env ⟨true, false, true, true⟩), .main, .main, .main]

end Calipso.Ar9170
