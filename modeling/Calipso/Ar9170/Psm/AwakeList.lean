import Calipso.Ar9170.Psm.AwakeMemory

/-!
# The awake list under its interrupts

The part of the driver that works on the awake list, with the list in memory: the
received ATIM frames, whose senders the main loop lists, the status responses that
interrupt it, and the erasing once in a beacon interval. An access outside the
blocks in use sets `fault`, and what it reads is arbitrary.

The list has no address twice and no zero address in every run that the guard
admits. What the guard leaves out is what the code does not look at.
-/

namespace Calipso.Ar9170.AwakeList

open Interrupt Memory HeapM

section Code

/-- Ghost: the received ATIM frame that is being handled. -/
inductive Stage
  | idle
  /-- Its sender may still be listed. -/
  | holding (sa : MacAddr)
  /-- The node behind `pos` is not filled yet. -/
  | linking (pos : Nat)
  deriving DecidableEq, Repr

structure MemState where
  mem : Heap (Block MacAddr)
  /-- `wake_neighbors_list`. -/
  list : Ptr
  psmState : OpState
  eraseAwakeNodesFlag : Bool
  txAtimWait : Bool
  lastAtimDA : MacAddr
  lastAtimA3 : MacAddr
  /-- The ATIM frames among the stored MPDUs. -/
  rxPendingAtims : List AtimMgmt
  fault : Bool
  stage : Stage

/-- Run `m` on the memory, then go on with `g`. -/
def MemState.on {α : Type} (s : MemState) (m : Mem α) (g : α → MemState → MemState) : MemState :=
  match m s.mem with
  | .error _ => { s with fault := true }
  | .ok (a, mem) => g a { s with mem := mem }

def MemState.value {α : Type} [Inhabited α] (s : MemState) (m : Mem α) : α :=
  match m s.mem with
  | .error _ => default
  | .ok (a, _) => a

/-- An action of the main loop on the memory. -/
def onMem {α : Type} [Inhabited α] (m : MemState → Mem α) (g : α → MemState → MemState) :
    Prog MemState α :=
  Prog.atomically (fun s => s.value (m s)) (fun s => s.on (m s) g)

def keep {α : Type} (_ : α) (s : MemState) : MemState := s

/-- The frame is handled as far as the list is concerned. -/
def release {α : Type} (_ : α) (s : MemState) : MemState :=
  { s with stage := .idle }

/-- There is a node behind `pos` to be filled. -/
def startLinking (pos next : Ptr) (s : MemState) : MemState :=
  match pos, next with
  | some a, some _ => { s with stage := .linking a }
  | _, _ => s

/-- The node behind `pos` gets the payload, and becomes the last one. -/
def fillNode (pos awake : Ptr) : Prog MemState Unit := do
  onMem (fun _ => fillVal pos awake) keep
  onMem (fun _ => fillNext pos) release

/-- What is behind `pos` is read again when the new node has been put there. -/
def fillIfLinked (pos awake : Ptr) : Prog MemState Unit := do
  let next ← onMem (fun _ => nextOf pos) (startLinking pos)
  if next = none then pure () else fillNode pos awake

/-- `linked_list_add_tail`, interrupted. -/
def addTail (theList awake : Ptr) : Prog MemState Unit := do
  let root ← onMem (fun _ => LinkedList.loadNode theList) keep
  if root.1 = none then onMem (fun _ => LinkedList.storeVal theList awake) release
  else do
    let last ← onMem (fun _ => findLast theList) keep
    if psmMaxAwakeNodesListLen ≤ last.2 then pure ()
    else do
      let node ← onMem (fun _ => malloc (.node none none)) keep
      onMem (fun _ => LinkedList.storeNext last.1 node) fun _ => startLinking last.1 node
      fillIfLinked last.1 awake

/-- `ieee80211_psm_add_awake_node`. -/
def addAwakeNode (sa : MacAddr) : Prog MemState Unit := do
  let awake ← onMem (fun _ => malloc (.payload 0)) keep
  if awake = none then pure ()
  else do
    onMem (fun _ => store awake (.payload sa)) keep
    let theList ← Prog.read MemState.list
    addTail theList awake

def releaseIf (found : Bool) (s : MemState) : MemState :=
  if found then { s with stage := .idle } else s

/-- The sender of an ATIM frame is listed unless it is listed already. -/
def rxListSender (sa : MacAddr) : Prog MemState Unit := do
  let psm ← Prog.read MemState.psmState
  if psm = .preTbtt then addAwakeNode sa
  else do
    let awake ← onMem (fun s => isListed s.list sa) releaseIf
    if awake then pure () else addAwakeNode sa

/-- `ieee80211_rx_process_atim`. -/
def rxProcessAtim (cf : Conf) (mgmt : AtimMgmt) : Prog MemState Unit := do
  let psm ← Prog.read MemState.psmState
  let psm' ← Prog.read MemState.psmState
  if psm ≠ .atimWindow ∧ psm' ≠ .preTbtt then pure ()
  else if cf.accepts mgmt.da ∧ cf.confPs then rxListSender mgmt.sa
  else pure ()

def dropHead (s : MemState) : MemState :=
  { s with rxPendingAtims := s.rxPendingAtims.tail, stage := .idle }

/-- Outside the pre-TBTT period the head of the queue is handled. -/
def holdHead (cf : Conf) (s : MemState) : MemState :=
  match s.rxPendingAtims with
  | mgmt :: _ =>
      if s.psmState ≠ .preTbtt ∧ cf.accepts mgmt.da ∧ cf.confPs then
        { s with stage := .holding mgmt.sa }
      else s
  | [] => s

/-- `ar9170_sch_async_rx_check`, on an ATIM frame. -/
def asyncRxCheck (cf : Conf) : Prog MemState Unit := do
  let pending ← Prog.read MemState.rxPendingAtims
  if pending = [] then pure ()
  else do
    let psm ← Prog.atomically MemState.psmState (holdHead cf)
    if psm = .preTbtt then pure ()
    else do
      let next ← Prog.read fun s => s.rxPendingAtims.head?
      match next with
      | none => pure ()
      | some mgmt => do
          rxProcessAtim cf mgmt
          Prog.modify dropHead

def clearEraseFlag (s : MemState) : MemState :=
  { s with eraseAwakeNodesFlag := false }

/-- The scheduler's check of `erase_awake_nodes_flag`, with
`ieee80211_psm_erase_awake_neighbors`. -/
def eraseNodesCheck : Prog MemState Unit := do
  let flag ← Prog.read MemState.eraseAwakeNodesFlag
  if flag then do
    Prog.modify clearEraseFlag
    let psm ← Prog.read MemState.psmState
    if psm = .preTbtt then do
      let empty ← onMem (fun s => LinkedList.isEmpty s.list) keep
      if empty then pure ()
      else do
        let _ ← onMem (fun s => LinkedList.eraseDeep s.list) fun root s => { s with list := root }
        pure ()
    else pure ()
  else pure ()

/-- The start of a transmission in `ar9170_psm_async_tx_mgmt`: the addresses of the
ATIM frame are saved one after the other, when the wait flag is already set. -/
def sendAtim (cf : Conf) (da a3 : MacAddr) : Prog MemState Unit := do
  Prog.modify fun s => { s with txAtimWait := true }
  Prog.modify fun s => { s with lastAtimDA := da }
  if cf.psMode = .mhPsm then Prog.modify fun s => { s with lastAtimA3 := a3 } else pure ()

/-- `__ar9170_tx_status`, as far as it touches the list. -/
def atimStatus (cf : Conf) (st : TxStatus) (s : MemState) : MemState :=
  if s.txAtimWait ∧ cf.confPs then
    { s with txAtimWait := false }.on
      (creditSlots cf s.psmState s.list s.lastAtimDA s.lastAtimA3 st) fun slots s =>
        { s with lastAtimDA := slots.1, lastAtimA3 := slots.2 }
  else s

def preTbtt (cf : Conf) (s : MemState) : MemState :=
  if cf.confPs then
    { s with psmState := .preTbtt, eraseAwakeNodesFlag := true, txAtimWait := false }
  else { s with txAtimWait := false }

def storeAtim (mgmt : AtimMgmt) (mallocOk : Bool) (s : MemState) : MemState :=
  if maxPendingRxPktQueueLen ≤ s.rxPendingAtims.length ∨ mallocOk = false then s
  else { s with rxPendingAtims := s.rxPendingAtims ++ [mgmt] }

/-- The events that interrupt the main loop. -/
inductive Event
  | preTbtt
  /-- One of the other windows begins. -/
  | window (psm : OpState)
  | atimStatus (st : TxStatus)
  | rxAtim (mgmt : AtimMgmt) (mallocOk : Bool)
  deriving DecidableEq, Repr

def event (cf : Conf) : Event → MemState → Option MemState
  | .preTbtt, s => some (preTbtt cf s)
  | .window psm, s => if psm = .preTbtt then none else some { s with psmState := psm }
  | .atimStatus st, s => some (atimStatus cf st s)
  | .rxAtim mgmt ok, s => some (storeAtim mgmt ok s)

inductive Task
  | eraseNodesCheck
  | sendAtim (da a3 : MacAddr)
  | asyncRxCheck
  deriving DecidableEq, Repr

def machine (cf : Conf) : Machine MemState Event Task where
  irq := event cf
  body
    | .eraseNodesCheck => eraseNodesCheck
    | .sendAtim da a3 => sendAtim cf da a3
    | .asyncRxCheck => asyncRxCheck cf

end Code

section Property

/-- The memory without a node that is being filled. -/
def MemState.settled (s : MemState) : Heap (Block MacAddr) :=
  match s.stage with
  | .linking pos => cutAt s.mem pos
  | _ => s.mem

/-- What the awake list is to be: a list in memory, with its addresses in blocks in
use, none of them twice or zero, and not too many. -/
structure MemState.Sound (s : MemState) : Prop where
  fault : s.fault = false
  list : ∃ l, Holds s.settled s.list l ∧ l.Nodup ∧ 0 ∉ l ∧ l.length ≤ psmMaxAwakeNodesListLen

/-- The addresses on the list. -/
def MemState.addrs (s : MemState) : List MacAddr := AwakeList.addrs s.mem s.list

/-- What the model of the driver has of this state. -/
def MemState.driver (s : MemState) : Ar9170.State :=
  { Ar9170.State.init with
    psmState := s.psmState
    wakeNeighbors := s.addrs
    lastAtimDA := s.lastAtimDA
    lastAtimA3 := s.lastAtimA3 }

/-- The list can take the address. -/
def MemState.CanTake (s : MemState) (a : MacAddr) : Prop :=
  a ≠ 0 ∧ a ∉ s.addrs ∧ s.stage ≠ .holding a

/-- The status is taken for that of an ATIM frame that has arrived. -/
def MemState.Credits (cf : Conf) (st : TxStatus) (s : MemState) : Prop :=
  s.txAtimWait = true ∧ cf.confPs = true ∧
    ¬ (st.success = false ∧ s.lastAtimDA ≠ MacAddr.broadcast)

def MemState.isLinking (s : MemState) : Bool :=
  match s.stage with
  | .linking _ => true
  | _ => false

/-- The saved addresses can be listed, and there is memory for them. -/
def MemState.CanList (cf : Conf) (st : TxStatus) (s : MemState) : Prop :=
  st.mallocDa = true ∧ s.CanTake s.lastAtimDA ∧
    (cf.psMode = .mhPsm → st.mallocA3 = true ∧ s.CanTake s.lastAtimA3 ∧
      s.lastAtimA3 ≠ s.lastAtimDA)

/-- A status that is credited does not find a node that is being filled, and it
finds its DA on the list, as far as it looks, or else it can list what was saved. -/
def MemState.CanCredit (cf : Conf) (st : TxStatus) (s : MemState) : Prop :=
  s.isLinking = false ∧ (s.driver.isRemoteDaAwake s.lastAtimDA = false → s.CanList cf st)

/-- No listed sender is being handled. -/
def MemState.HoldsNew (s : MemState) : Prop :=
  match s.stage with
  | .holding sa => sa ∉ s.addrs
  | _ => True

/-- What the code does not look at does not happen. -/
def guard (cf : Conf) : Guard MemState Event Task where
  irq
    | .preTbtt, s => s.HoldsNew
    | .window _, _ => True
    | .atimStatus st, s => s.Credits cf st → s.CanCredit cf st
    | .rxAtim mgmt _, _ => mgmt.sa ≠ 0
  call _ _ := True

/-- The list is initialised and empty, and nothing is being handled. -/
structure MemState.Start (s : MemState) : Prop where
  list : ∃ root, s.list = some root ∧ s.mem.get root = some (.node none none)
  fault : s.fault = false
  stage : s.stage = .idle
  rxPendingAtims : s.rxPendingAtims = []

instance (a : MacAddr) (s : MemState) : Decidable (s.CanTake a) :=
  inferInstanceAs (Decidable (_ ∧ _))

instance (cf : Conf) (st : TxStatus) (s : MemState) : Decidable (s.Credits cf st) :=
  inferInstanceAs (Decidable (_ ∧ _))

instance (cf : Conf) (st : TxStatus) (s : MemState) : Decidable (s.CanList cf st) :=
  inferInstanceAs (Decidable (_ ∧ _))

instance (cf : Conf) (st : TxStatus) (s : MemState) : Decidable (s.CanCredit cf st) :=
  inferInstanceAs (Decidable (_ ∧ _))

instance (s : MemState) : Decidable s.HoldsNew :=
  match h : s.stage with
  | .holding sa => decidable_of_iff (sa ∉ s.addrs) (by rw [MemState.HoldsNew, h])
  | .idle => .isTrue (by rw [MemState.HoldsNew, h]; trivial)
  | .linking _ => .isTrue (by rw [MemState.HoldsNew, h]; trivial)

instance (cf : Conf) (s : MemState) (l : Label Event Task) : Decidable ((guard cf).admits s l) :=
  match l with
  | .irq .preTbtt => inferInstanceAs (Decidable s.HoldsNew)
  | .irq (.window _) => .isTrue trivial
  | .irq (.atimStatus st) => inferInstanceAs (Decidable (s.Credits cf st → s.CanCredit cf st))
  | .irq (.rxAtim mgmt _) => inferInstanceAs (Decidable (mgmt.sa ≠ 0))
  | .main => .isTrue trivial
  | .call _ => .isTrue trivial

end Property

section Interference

/-- The running `ieee80211_psm_add_awake_node` has found the nodes `cells`, has put
`a` in the block `p`, and has allocated the node `b`. -/
def Adding (h : Heap (Block MacAddr)) (list : Ptr) (root : Nat) (cells : List (Nat × Nat))
    (p : Nat) (a : MacAddr) (b : Ptr) : Prop :=
  ∃ l rest, HoldsAt h list l root (cells ++ rest) ∧ Spare h (cells ++ rest) p a ∧
    ∀ n, b = some n →
      h.get n = some (.node none none) ∧ n ≠ root ∧ n ∉ (cells ++ rest).map Prod.fst

/-- The invariant. In the pre-TBTT period the search finds nothing, so there the
sender of the frame that is being handled must be new. -/
structure MemState.Inv (s : MemState) : Prop where
  sound : s.Sound
  senders : ∀ mgmt ∈ s.rxPendingAtims, mgmt.sa ≠ 0
  unlisted : ∀ sa, s.stage = .holding sa → s.psmState = .preTbtt → sa ∉ s.addrs

/-- What the interrupts leave to the running call. -/
structure Undisturbed (s t : MemState) : Prop where
  stage : t.stage = s.stage
  list : t.list = s.list
  linking : ∀ pos, s.stage = .linking pos → t.mem = s.mem
  unlisted : ∀ sa, s.stage = .holding sa → sa ∉ s.addrs → sa ∉ t.addrs
  adding : ∀ sa, s.stage = .holding sa → ∀ root cells p a b,
    Adding s.mem s.list root cells p a b → Adding t.mem t.list root cells p a b
  queue : ∃ l, t.rxPendingAtims = s.rxPendingAtims ++ l

/-- Only the memory and the list matter. -/
theorem Undisturbed.of_eq {s t : MemState} (hstage : t.stage = s.stage) (hlist : t.list = s.list)
    (hmem : t.mem = s.mem) (hqueue : ∃ l, t.rxPendingAtims = s.rxPendingAtims ++ l) :
    Undisturbed s t := by
  refine ⟨hstage, hlist, fun _ _ => hmem, fun sa _ hsa => ?_, fun sa _ root cells p a b h => ?_,
    hqueue⟩
  · unfold MemState.addrs
    rwa [hmem, hlist]
  · rwa [hmem, hlist]

theorem Undisturbed.trans {s t u : MemState} (h : Undisturbed s t) (h' : Undisturbed t u) :
    Undisturbed s u := by
  refine ⟨h'.stage.trans h.stage, h'.list.trans h.list, fun pos hpos => ?_, fun sa hsa hun => ?_,
    fun sa hsa root cells p a b hadd => ?_, ?_⟩
  · exact (h'.linking pos (h.stage.trans hpos)).trans (h.linking pos hpos)
  · exact h'.unlisted sa (h.stage.trans hsa) (h.unlisted sa hsa hun)
  · exact h'.adding sa (h.stage.trans hsa) root cells p a b (h.adding sa hsa root cells p a b hadd)
  · obtain ⟨l, hl⟩ := h.queue
    obtain ⟨l', hl'⟩ := h'.queue
    exact ⟨l ++ l', by rw [hl', hl, List.append_assoc]⟩

def rely : Rely MemState where
  inv := MemState.Inv
  rel := Undisturbed
  refl _ := .of_eq rfl rfl rfl ⟨[], (List.append_nil _).symm⟩
  trans := Undisturbed.trans

variable {cf : Conf} {s t : MemState}

theorem MemState.settled_eq (hs : s.isLinking = false) : s.settled = s.mem := by
  unfold MemState.isLinking at hs
  unfold MemState.settled
  split at hs
  · cases hs
  · rfl

theorem MemState.isLinking_of_holding {sa : MacAddr} (hs : s.stage = .holding sa) :
    s.isLinking = false := by
  simp [MemState.isLinking, hs]

/-- The list of a state in which no node is being filled. -/
theorem MemState.Inv.holds (hs : s.Inv) (hlink : s.isLinking = false) :
    ∃ root cells, HoldsAt s.mem s.list s.addrs root cells ∧ s.addrs.Nodup ∧ 0 ∉ s.addrs ∧
      s.addrs.length ≤ psmMaxAwakeNodesListLen := by
  obtain ⟨l, hl, hnd, hzero, hlen⟩ := hs.sound.list
  rw [MemState.settled_eq hlink] at hl
  have haddrs : s.addrs = l := hl.addrs_eq
  obtain ⟨root, cells, hl⟩ := hl
  rw [haddrs]
  exact ⟨root, cells, hl, hnd, hzero, hlen⟩

/-- The list grows behind the running call. -/
theorem Grown.adding {h h' : Heap (Block MacAddr)} {list b : Ptr} {l l' : List MacAddr}
    {root p : Nat} {cells0 cells rest : List (Nat × Nat)} {a : MacAddr}
    (hg : Grown h list l root cells h' l') (hcells : cells = cells0 ++ rest)
    (hp : Spare h cells p a)
    (hb : ∀ n, b = some n →
      h.get n = some (.node none none) ∧ n ≠ root ∧ n ∉ cells.map Prod.fst)
    (hl : HoldsAt h list l root cells) : Adding h' list root cells0 p a b := by
  subst hcells
  obtain ⟨cells', hl', hfresh⟩ := hg.holds
  obtain ⟨hroot, hnode⟩ := hl.shape.not_node_of_payload hp.block
  refine ⟨l ++ l', rest ++ cells', ?_⟩
  rw [← List.append_assoc, List.map_append]
  refine ⟨hl', ⟨hg.others p _ hp.block hroot hnode, fun hmem => ?_⟩, fun n hn => ?_⟩
  · rw [List.map_append, List.mem_append] at hmem
    rcases hmem with hmem | hmem
    · exact hp.new hmem
    · obtain ⟨x, hx, heq⟩ := List.mem_map.mp hmem
      have hlt := Heap.lt_bound hp.block
      have hle := (hfresh x hx).2
      omega
  · obtain ⟨hget, hne, hnot⟩ := hb n hn
    refine ⟨hg.others n _ hget hne hnot, hne, fun hmem => ?_⟩
    rcases List.mem_append.mp hmem with hmem | hmem
    · exact hnot hmem
    · obtain ⟨x, hx, heq⟩ := List.mem_map.mp hmem
      have hlt := Heap.lt_bound hget
      rcases (hfresh x hx).1 with hx | hx
      · exact hne (heq.symm.trans hx)
      · omega

/-- What a status lists is the saved DA, and in MH-PSM the saved A3. -/
theorem mem_creditLastAtim {st : TxStatus} {d : Ar9170.State} {a : MacAddr}
    (ha : a ∈ (creditLastAtim cf st d).wakeNeighbors) :
    a ∈ d.wakeNeighbors ∨ d.isRemoteDaAwake d.lastAtimDA = false ∧
      (a = d.lastAtimDA ∨ cf.psMode = .mhPsm ∧ a = d.lastAtimA3) := by
  rw [creditLastAtim_wakeNeighbors] at ha
  split at ha
  next => exact .inl ha
  next hcase =>
    rw [not_or, not_or, Bool.not_eq_true] at hcase
    dsimp only at ha
    split at ha
    next hmode =>
      rcases mem_listAwake ha with ha | ha
      · rcases mem_listAwake ha with ha | ha
        · exact .inl ha
        · exact .inr ⟨hcase.2.2, .inl ha⟩
      · exact .inr ⟨hcase.2.2, .inr ⟨hmode, ha⟩⟩
    next =>
      rcases mem_listAwake ha with ha | ha
      · exact .inl ha
      · exact .inr ⟨hcase.2.2, .inl ha⟩

/-- New addresses make no address occur twice. -/
theorem nodup_creditLastAtim {st : TxStatus} {d : Ar9170.State} (hl : d.wakeNeighbors.Nodup)
    (hnew : d.isRemoteDaAwake d.lastAtimDA = false → d.lastAtimDA ∉ d.wakeNeighbors ∧
      (cf.psMode = .mhPsm → d.lastAtimA3 ∉ d.wakeNeighbors ∧ d.lastAtimA3 ≠ d.lastAtimDA)) :
    (creditLastAtim cf st d).wakeNeighbors.Nodup := by
  rw [creditLastAtim_wakeNeighbors]
  split
  next => exact hl
  next hcase =>
    rw [not_or, not_or, Bool.not_eq_true] at hcase
    obtain ⟨hda, ha3⟩ := hnew hcase.2.2
    have hfirst : (listAwake d.wakeNeighbors d.lastAtimDA st.mallocDa).Nodup :=
      nodup_listAwake hl hda
    dsimp only
    split
    next hmode =>
      refine nodup_listAwake hfirst fun hmem => ?_
      rcases mem_listAwake hmem with hmem | heq
      · exact (ha3 hmode).1 hmem
      · exact (ha3 hmode).2 heq
    next => exact hfirst

theorem length_creditLastAtim {st : TxStatus} {d : Ar9170.State}
    (hl : d.wakeNeighbors.length ≤ psmMaxAwakeNodesListLen) :
    (creditLastAtim cf st d).wakeNeighbors.length ≤ psmMaxAwakeNodesListLen := by
  rw [creditLastAtim_wakeNeighbors]
  split
  next => exact hl
  next =>
    dsimp only
    split
    · exact length_listAwake_le (length_listAwake_le hl)
    · exact length_listAwake_le hl

/-- The invariant does not look at the flags and the slots. -/
theorem MemState.Inv.of_eq (hs : s.Inv) (hmem : t.mem = s.mem) (hlist : t.list = s.list)
    (hstage : t.stage = s.stage) (hfault : t.fault = s.fault)
    (hqueue : ∀ mgmt ∈ t.rxPendingAtims, mgmt.sa ≠ 0)
    (hpsm : ∀ sa, t.stage = .holding sa → t.psmState = .preTbtt → sa ∉ s.addrs) : t.Inv := by
  have hsettled : t.settled = s.settled := by
    unfold MemState.settled
    rw [hstage, hmem]
  refine ⟨⟨hfault.trans hs.sound.fault, ?_⟩, hqueue, fun sa hsa hpre => ?_⟩
  · rw [hsettled, hlist]
    exact hs.sound.list
  · unfold MemState.addrs
    rw [hmem, hlist]
    exact hpsm sa hsa hpre

/-- A status that the guard admits keeps the list in order. -/
theorem inv_atimStatus {st : TxStatus} (hs : s.Inv) (hG : s.Credits cf st → s.CanCredit cf st) :
    (atimStatus cf st s).Inv ∧ Undisturbed s (atimStatus cf st s) := by
  unfold atimStatus
  split
  next hwait =>
    by_cases hfail : st.success = false ∧ s.lastAtimDA ≠ MacAddr.broadcast
    · have hpure : creditSlots cf s.psmState s.list s.lastAtimDA s.lastAtimA3 st s.mem =
          .ok ((s.lastAtimDA, s.lastAtimA3), s.mem) := by
        rw [creditSlots, if_pos hfail]
        rfl
      simp only [MemState.on, hpure]
      exact ⟨hs.of_eq rfl rfl rfl rfl hs.senders hs.unlisted,
        .of_eq rfl rfl rfl ⟨[], (List.append_nil _).symm⟩⟩
    · obtain ⟨hlink, hlist⟩ := hG ⟨hwait.1, hwait.2, hfail⟩
      obtain ⟨root, cells, hl, hnd, hzero, hlen⟩ := hs.holds hlink
      have hlen' : s.addrs.length < 2 ^ 16 := Nat.lt_of_le_of_lt hlen (by decide)
      have hmalloc : s.driver.isRemoteDaAwake s.driver.lastAtimDA = false →
          st.mallocDa = true ∧ (cf.psMode = .mhPsm → st.mallocA3 = true) := fun hawake =>
        ⟨(hlist hawake).1, fun hmode => ((hlist hawake).2.2 hmode).1⟩
      obtain ⟨slots, mem', heq, okDa, okA3, l', -, hcredit, hg⟩ :=
        wp_creditSlots (s := s.driver) hl hlen' hmalloc
      obtain ⟨cells', hl', -⟩ := hg.holds
      have hmem : ∀ a ∈ s.addrs ++ l', a ∈ s.addrs ∨ s.CanTake a := by
        intro a ha
        rcases mem_creditLastAtim (hcredit.symm ▸ ha) with ha | ⟨hawake, rfl | ⟨hmode, rfl⟩⟩
        · exact .inl ha
        · exact .inr (hlist hawake).2.1
        · exact .inr ((hlist hawake).2.2 hmode).2.1
      have hnd' : (s.addrs ++ l').Nodup := by
        refine hcredit ▸ nodup_creditLastAtim hnd fun hawake => ⟨(hlist hawake).2.1.2.1, ?_⟩
        intro hmode
        obtain ⟨-, htake, hne⟩ := (hlist hawake).2.2 hmode
        exact ⟨htake.2.1, hne⟩
      have hzero' : 0 ∉ s.addrs ++ l' := fun h0 =>
        (hmem 0 h0).elim hzero fun htake => htake.1 rfl
      have hun : ∀ sa, s.stage = .holding sa → sa ∉ s.addrs → sa ∉ s.addrs ++ l' :=
        fun sa hsa hno h => (hmem sa h).elim hno fun htake => htake.2.2 hsa
      have haddrs : addrs mem' s.list = s.addrs ++ l' := hl'.addrs_eq
      have hres : creditSlots cf s.psmState s.list s.lastAtimDA s.lastAtimA3 st s.mem =
          .ok (slots, mem') := heq
      simp only [MemState.on, hres]
      refine ⟨⟨⟨hs.sound.fault, s.addrs ++ l', ?_, hnd', hzero', ?_⟩, hs.senders, ?_⟩, rfl, rfl,
        ?_, ?_, ?_, [], (List.append_nil _).symm⟩
      · rw [MemState.settled_eq (by exact hlink)]
        exact ⟨root, cells ++ cells', hl'⟩
      · exact hcredit ▸ length_creditLastAtim hlen
      · intro sa hsa hpre
        show sa ∉ addrs mem' s.list
        rw [haddrs]
        exact hun sa hsa (hs.unlisted sa hsa hpre)
      · intro pos hpos
        simp [MemState.isLinking, hpos] at hlink
      · intro sa hsa hno
        show sa ∉ addrs mem' s.list
        rw [haddrs]
        exact hun sa hsa hno
      · rintro sa hsa root' cells0 p a b ⟨l0, rest, hl0, hp, hb⟩
        obtain rfl : l0 = s.addrs := hl0.addrs_eq.symm
        -- the same run of the handler, seen from the nodes that the call knows
        obtain ⟨slots2, mem2, heq2, -, -, l2, -, -, hg2⟩ :=
          wp_creditSlots (s := s.driver) hl0 hlen' hmalloc
        have hmem2 : mem2 = mem' := by
          rw [heq, Except.ok.injEq, Prod.mk.injEq] at heq2
          exact heq2.2.symm
        subst hmem2
        exact hg2.adding rfl hp hb hl0
  next => exact ⟨hs, rely.refl s⟩

/-- The events that the guard admits. -/
theorem inv_event {e : Event} (hs : s.Inv) (hG : (guard cf).irq e s) (h : event cf e s = some t) :
    t.Inv ∧ Undisturbed s t := by
  have hsame : ∃ l, s.rxPendingAtims = s.rxPendingAtims ++ l := ⟨[], (List.append_nil _).symm⟩
  cases e with
  | preTbtt =>
      obtain rfl : preTbtt cf s = t := Option.some.inj h
      have hnew : ∀ sa, s.stage = .holding sa → sa ∉ s.addrs := by
        intro sa hsa
        have hG : s.HoldsNew := hG
        rwa [MemState.HoldsNew, hsa] at hG
      unfold preTbtt
      split
      · exact ⟨hs.of_eq rfl rfl rfl rfl hs.senders fun sa hsa _ => hnew sa hsa,
          .of_eq rfl rfl rfl hsame⟩
      · exact ⟨hs.of_eq rfl rfl rfl rfl hs.senders hs.unlisted, .of_eq rfl rfl rfl hsame⟩
  | window psm =>
      simp only [event] at h
      split at h
      · cases h
      next hpsm =>
        cases h
        exact ⟨hs.of_eq rfl rfl rfl rfl hs.senders fun sa _ hpre => absurd hpre hpsm,
          .of_eq rfl rfl rfl hsame⟩
  | atimStatus st =>
      obtain rfl : atimStatus cf st s = t := Option.some.inj h
      exact inv_atimStatus hs hG
  | rxAtim mgmt ok =>
      obtain rfl : storeAtim mgmt ok s = t := Option.some.inj h
      unfold storeAtim
      split
      · exact ⟨hs, rely.refl s⟩
      · refine ⟨hs.of_eq rfl rfl rfl rfl (fun m hm => ?_) hs.unlisted,
          .of_eq rfl rfl rfl ⟨[mgmt], rfl⟩⟩
        rcases List.mem_append.mp hm with hm | hm
        · exact hs.senders m hm
        · rw [List.mem_singleton.mp hm]
          exact hG

end Interference

section MainLoop

variable {cf : Conf} {s t : MemState} {root a w b p : Nat} {sa : MacAddr} {l : List MacAddr}
  {l0 : List (Nat × Nat)}

/-- An action on the memory: it runs without a fault, keeps the invariant, and the
rest of the code goes on from there. -/
theorem sat_onMem {α β : Type} [Inhabited α] {m : MemState → Mem α}
    {g : α → MemState → MemState} {k : α → Prog MemState β} {Q : β → MemState → Prop}
    (h : ∀ t, Undisturbed s t → t.Inv → Wp (m t) (fun a mem =>
      (g a { t with mem := mem }).Inv ∧ Sat rely (k a) Q (g a { t with mem := mem })) t.mem) :
    Sat rely (onMem m g >>= k) Q s := by
  refine Sat.atomically_bind fun t hst ht => ?_
  obtain ⟨a, mem, heq, hQ⟩ := h t hst ht
  simp only [MemState.on, MemState.value, heq]
  exact hQ

/-- The last action of the code. -/
theorem sat_onMem_last {α : Type} [Inhabited α] {m : MemState → Mem α}
    {g : α → MemState → MemState} {Q : α → MemState → Prop}
    (h : ∀ t, Undisturbed s t → t.Inv → Wp (m t) (fun a mem =>
      (g a { t with mem := mem }).Inv ∧
        ∀ u, Undisturbed (g a { t with mem := mem }) u → u.Inv → Q a u) t.mem) :
    Sat rely (onMem m g) Q s := by
  intro t hst ht
  obtain ⟨a, mem, heq, hQ⟩ := h t hst ht
  simp only [MemState.on, MemState.value, heq]
  exact hQ

/-- No node is being filled at the end. -/
def Filled (_ : Unit) (s : MemState) : Prop := s.isLinking = false

theorem Undisturbed.isLinking (h : Undisturbed s t) : t.isLinking = s.isLinking := by
  unfold MemState.isLinking
  rw [h.stage]

theorem filled_ret (hs : s.isLinking = false) : Sat rely (.ret ()) Filled s :=
  fun _ hst _ => hst.isLinking.trans hs

/-- The addresses `l` can have `sa` behind them. -/
structure Fits (l : List MacAddr) (sa : MacAddr) : Prop where
  nodup : l.Nodup
  zero : 0 ∉ l
  new : sa ∉ l
  ne_zero : sa ≠ 0

theorem Fits.take (hf : Fits l sa) (n : Nat) : Fits (l.take n) sa :=
  ⟨hf.nodup.sublist (List.take_sublist n l), fun h => hf.zero (List.mem_of_mem_take h),
    fun h => hf.new (List.mem_of_mem_take h), hf.ne_zero⟩

theorem Fits.nodup_snoc (hf : Fits l sa) : (l ++ [sa]).Nodup := by
  rw [← List.concat_eq_append]
  exact hf.nodup.concat hf.new

theorem Fits.zero_snoc (hf : Fits l sa) : 0 ∉ l ++ [sa] := by
  rw [List.mem_append, not_or, List.mem_singleton]
  exact ⟨hf.zero, hf.ne_zero.symm⟩

/-- The two writes that fill a node. -/
theorem sat_fillNode (hstage : s.stage = .linking a)
    (hk : Linked s.mem s.list l root l0 a w b p sa) (hf : Fits l sa)
    (hlen : l.length < psmMaxAwakeNodesListLen) :
    Sat rely (fillNode (some a) (some p)) Filled s := by
  refine sat_onMem fun t hst ht => ?_
  have hstage' : t.stage = .linking a := hst.stage.trans hstage
  rw [← hst.linking a hstage, ← hst.list] at hk
  refine (wp_fillVal hk).mono fun _ mem hmem => ?_
  obtain ⟨hk', n, hb⟩ := hmem
  have ht' : ({ t with mem := mem } : MemState).Inv := by
    refine ⟨⟨ht.sound.fault, l, ?_, hf.nodup, hf.zero, Nat.le_of_lt hlen⟩, ht.senders, ?_⟩
    · simp only [MemState.settled, hstage']
      exact ⟨root, _, hk'.holds⟩
    · intro sa' hsa'
      rw [hstage'] at hsa'
      cases hsa'
  refine ⟨ht', sat_onMem_last fun u htu hu => ?_⟩
  have hmem' : u.mem = mem := htu.linking a hstage'
  have hlist' : u.list = t.list := htu.list
  rw [← hmem', ← hlist'] at hk'
  rw [← hmem'] at hb
  refine (wp_fillNext hk' hb).mono fun _ mem' hl => ⟨?_, fun v huv _ => huv.isLinking⟩
  refine ⟨⟨hu.sound.fault, l ++ [sa], ⟨root, _, hl⟩, hf.nodup_snoc, hf.zero_snoc, ?_⟩, hu.senders,
    nofun⟩
  rw [List.length_append, List.length_singleton]
  exact hlen

/-- The call knows the nodes up to `a` and has the block `p` for `sa`, which is not
listed. -/
theorem Adding.fits {cells : List (Nat × Nat)} {c : MacAddr} {b : Ptr}
    (hadd : Adding s.mem s.list root cells p c b) (hs : s.Inv) (hlink : s.isLinking = false)
    (hun : sa ∉ s.addrs) (hsa : sa ≠ 0) :
    ∃ l rest, HoldsAt s.mem s.list l root (cells ++ rest) ∧ Spare s.mem (cells ++ rest) p c ∧
      (∀ n, b = some n → s.mem.get n = some (.node none none) ∧ n ≠ root ∧
        n ∉ (cells ++ rest).map Prod.fst) ∧ Fits l sa ∧ l.length ≤ psmMaxAwakeNodesListLen := by
  obtain ⟨l, rest, hl, hp, hb⟩ := hadd
  obtain ⟨-, -, -, hnd, hzero, hlen⟩ := hs.holds hlink
  have haddrs : s.addrs = l := hl.addrs_eq
  rw [haddrs] at hnd hzero hlen hun
  exact ⟨l, rest, hl, hp, hb, ⟨hnd, hzero, hun, hsa⟩, hlen⟩

/-- The memory is left with a list that does not have the address. -/
theorem inv_of_holds {mem : Heap (Block MacAddr)} {cells : List (Nat × Nat)} (ht : t.Inv)
    (hstage : t.stage = .holding sa) (hl : HoldsAt mem t.list l root cells) (hf : Fits l sa)
    (hlen : l.length ≤ psmMaxAwakeNodesListLen) :
    ({ t with mem := mem } : MemState).Inv ∧
      sa ∉ ({ t with mem := mem } : MemState).addrs := by
  have hlink : ({ t with mem := mem } : MemState).isLinking = false :=
    MemState.isLinking_of_holding hstage
  have haddrs : ({ t with mem := mem } : MemState).addrs = l := hl.addrs_eq
  refine ⟨⟨⟨ht.sound.fault, l, ?_, hf.nodup, hf.zero, hlen⟩, ht.senders, ?_⟩, ?_⟩
  · rw [MemState.settled_eq hlink]
    exact ⟨root, cells, hl⟩
  · intro sa' hsa' _
    obtain rfl : sa = sa' := by simpa [hstage] using hsa'
    rw [haddrs]
    exact hf.new
  · rw [haddrs]
    exact hf.new

/-- The node that is linked behind `a`, when the list is cut there. -/
theorem HoldsAt.linked {h h' : Heap (Block MacAddr)} {list : Ptr} {rest : List (Nat × Nat)}
    {n : Nat} {next v m : Ptr} (hl : HoldsAt h list l root (l0 ++ (a, w) :: rest))
    (hp : Spare h (l0 ++ (a, w) :: rest) p sa)
    (ha : h.get a = some (LinkedList.itemNode w next))
    (ha' : h'.get a = some (LinkedList.itemNode w (some n)))
    (hget : ∀ x, x ≠ a → h'.get x = h.get x) (hnode : h.get n = some (.node v m))
    (hne : n ∉ (l0 ++ [(a, w)]).map Prod.fst) :
    Linked h' list (l.take (l0.length + 1)) root l0 a w n p sa := by
  have hsub : l0 ++ [(a, w)] ⊆ l0 ++ (a, w) :: rest := by
    intro x hx
    simp only [List.mem_append, List.mem_cons, List.not_mem_nil, or_false] at hx ⊢
    exact hx.imp_right .inl
  have hna : n ≠ a := by
    rintro rfl
    exact hne (by simp)
  have hpa : p ≠ a := by
    rintro rfl
    have hpay := hp.block
    rw [ha] at hpay
    cases hpay
  refine ⟨hl.cut ?_ fun x hx => ?_, ha', ⟨v, m, (hget n hna).trans hnode⟩, hne,
    (hget p hpa).trans hp.block, fun hmem => hp.new ?_⟩
  · rw [cutAt_get ha', if_pos rfl]
  · rw [cutAt_get ha', if_neg hx]
    exact hget x hx
  · obtain ⟨x, hx, heq⟩ := List.mem_map.mp hmem
    exact List.mem_map.mpr ⟨x, hsub hx, heq⟩

theorem inv_of_linked {mem : Heap (Block MacAddr)} (ht : t.Inv)
    (hk : Linked mem t.list l root l0 a w b p sa) (hf : Fits l sa)
    (hlen : l.length < psmMaxAwakeNodesListLen) :
    ({ t with mem := mem, stage := .linking a } : MemState).Inv :=
  ⟨⟨ht.sound.fault, l, ⟨root, _, hk.holds⟩, hf.nodup, hf.zero, Nat.le_of_lt hlen⟩, ht.senders,
    nofun⟩

/-- What stands behind `a` has been put there by this call. -/
theorem sat_fillIfLinked_linking (hstage : s.stage = .linking a)
    (hk : Linked s.mem s.list l root l0 a w b p sa) (hf : Fits l sa)
    (hlen : l.length < psmMaxAwakeNodesListLen) :
    Sat rely (fillIfLinked (some a) (some p)) Filled s := by
  refine sat_onMem fun t hst ht => ?_
  have hstage' : t.stage = .linking a := hst.stage.trans hstage
  rw [← hst.linking a hstage, ← hst.list] at hk
  have hsame : ({ t with mem := t.mem, stage := .linking a } : MemState) = t := by
    rw [← hstage']
  refine wp_nextOf hk.next ?_
  simp only [startLinking, reduceCtorEq, if_false, hsame]
  exact ⟨ht, sat_fillNode hstage' hk hf hlen⟩

/-- Nothing was put behind `a`. If there is a node nevertheless, then a status has
put it there, and its payload is overwritten. -/
theorem sat_fillIfLinked_holding (hstage : s.stage = .holding sa)
    (hadd : Adding s.mem s.list root (l0 ++ [(a, w)]) p sa none) (hun : sa ∉ s.addrs)
    (hsa : sa ≠ 0) (hlen : l0.length + 1 < psmMaxAwakeNodesListLen) :
    Sat rely (fillIfLinked (some a) (some p)) Filled s := by
  refine sat_onMem fun t hst ht => ?_
  have hstage' : t.stage = .holding sa := hst.stage.trans hstage
  have hlink := MemState.isLinking_of_holding hstage'
  obtain ⟨l, rest, hl, hp, -, hf, -⟩ := (hst.adding sa hstage _ _ _ _ _ hadd).fits ht hlink
    (hst.unlisted sa hstage hun) hsa
  rw [List.append_assoc, List.singleton_append] at hl hp
  obtain ⟨-, hl0, -, next, ha, hrest⟩ := Memory.Seg.append_iff.mp (hl.shape.seg (by simp))
  refine wp_nextOf ha ?_
  cases next with
  | none =>
      simp only [startLinking]
      exact ⟨ht, filled_ret hlink⟩
  | some n =>
      cases rest with
      | nil => cases hrest
      | cons x rest =>
          obtain ⟨heq, m, hx, -⟩ := hrest
          obtain rfl : n = x.1 := Option.some.inj heq
          have hne : x.1 ∉ (l0 ++ [(a, w)]).map Prod.fst := by
            have hnodes := hl.shape.nodes
            rw [List.append_cons, List.map_append, List.nodup_append] at hnodes
            exact fun hmem => hnodes.2.2 x.1 hmem x.1 (by simp) rfl
          have hk := hl.linked hp ha ha (fun _ _ => rfl) hx hne
          have hlen' : (l.take (l0.length + 1)).length < psmMaxAwakeNodesListLen :=
            Nat.lt_of_le_of_lt (List.length_take_le _ _) hlen
          simp only [startLinking, reduceCtorEq, if_false]
          exact ⟨inv_of_linked ht hk (hf.take _) hlen',
            sat_fillNode rfl hk (hf.take _) hlen'⟩

/-- The new node is linked, and filled. -/
theorem sat_link {node : Ptr} (hstage : s.stage = .holding sa)
    (hadd : Adding s.mem s.list root (l0 ++ [(a, w)]) p sa node) (hun : sa ∉ s.addrs)
    (hsa : sa ≠ 0) (hlen : l0.length + 1 < psmMaxAwakeNodesListLen) :
    Sat rely (do
      onMem (fun _ => LinkedList.storeNext (some a) node) fun _ => startLinking (some a) node
      fillIfLinked (some a) (some p)) Filled s := by
  refine sat_onMem fun t hst ht => ?_
  have hstage' : t.stage = .holding sa := hst.stage.trans hstage
  obtain ⟨l, rest, hl, hp, hb, hf, -⟩ := (hst.adding sa hstage _ _ _ _ _ hadd).fits ht
    (MemState.isLinking_of_holding hstage') (hst.unlisted sa hstage hun) hsa
  rw [List.append_assoc, List.singleton_append] at hl hp hb
  obtain ⟨-, -, -, next, ha, -⟩ := Memory.Seg.append_iff.mp (hl.shape.seg (by simp))
  refine LinkedList.wp_storeNext ha ?_
  have hlen' : (l.take (l0.length + 1)).length < psmMaxAwakeNodesListLen :=
    Nat.lt_of_le_of_lt (List.length_take_le _ _) hlen
  have hget : ∀ x, x ≠ a → (t.mem.set a (some (.node (some w) node)) (Heap.lt_bound ha)).get x =
    t.mem.get x := fun x hx => Heap.set_get_of_ne _ _ _ hx
  have hgeta := Heap.set_get_self t.mem a (some (.node (some w) node)) (Heap.lt_bound ha)
  have hpa : p ≠ a := by
    rintro rfl
    have hpay := hp.block
    rw [ha] at hpay
    cases hpay
  cases node with
  | none =>
      have hcut := hl.cut hgeta hget
      obtain ⟨hinv, hun'⟩ := inv_of_holds ht hstage' hcut (hf.take _) (Nat.le_of_lt hlen')
      have hadd' : Adding (t.mem.set a (some (.node (some w) none)) (Heap.lt_bound ha)) t.list root
          (l0 ++ [(a, w)]) p sa none := by
        refine ⟨l.take (l0.length + 1), [], ?_,
          ⟨(hget p hpa).trans hp.block, fun hmem => ?_⟩, nofun⟩
        · rw [List.append_nil]
          exact hcut
        · refine hp.new ?_
          rw [List.append_nil, List.map_append] at hmem
          rw [List.map_append, List.map_cons, List.mem_append, List.mem_cons]
          rw [List.mem_append, List.map_singleton, List.mem_singleton] at hmem
          exact hmem.imp_right .inl
      exact ⟨hinv, sat_fillIfLinked_holding hstage' hadd' hun' hsa hlen⟩
  | some n =>
      obtain ⟨hn, hroot, hne⟩ := hb n rfl
      have hne' : n ∉ (l0 ++ [(a, w)]).map Prod.fst := by
        intro hmem
        rw [List.map_append, List.mem_append, List.map_singleton, List.mem_singleton] at hmem
        rw [List.map_append, List.map_cons, List.mem_append, List.mem_cons, not_or, not_or] at hne
        exact hmem.elim hne.1 hne.2.1
      have hk := hl.linked hp ha hgeta hget hn hne'
      simp only [startLinking]
      exact ⟨inv_of_linked ht hk (hf.take _) hlen',
        sat_fillIfLinked_linking rfl hk (hf.take _) hlen'⟩

/-- The address is put at the root of a list that was found empty. -/
theorem sat_storeRoot (hstage : s.stage = .holding sa)
    (hadd : Adding s.mem s.list root [] p sa none) (hun : sa ∉ s.addrs) (hsa : sa ≠ 0) :
    Sat rely (onMem (fun _ => LinkedList.storeVal (some root) (some p)) release) Filled s := by
  refine sat_onMem_last fun t hst ht => ?_
  have hstage' : t.stage = .holding sa := hst.stage.trans hstage
  obtain ⟨l, rest, hl, hp, -, hf, hlen⟩ := (hst.adding sa hstage _ _ _ _ _ hadd).fits ht
    (MemState.isLinking_of_holding hstage') (hst.unlisted sa hstage hun) hsa
  rw [List.nil_append] at hl hp
  obtain ⟨v, n, hroot⟩ := hl.shape.root_get
  rw [← hl.list_eq]
  refine (wp_storeVal_root hl hp hroot).mono fun _ mem hl' => ⟨?_, fun u htu _ => htu.isLinking⟩
  have hnew : sa ∉ l.tail := fun h => hf.new (List.mem_of_mem_tail h)
  refine ⟨⟨ht.sound.fault, sa :: l.tail, ⟨root, _, hl'⟩, ?_, ?_, ?_⟩, ht.senders, nofun⟩
  · exact List.nodup_cons.mpr ⟨hnew, hf.nodup.tail⟩
  · rw [List.mem_cons, not_or]
    exact ⟨hf.ne_zero.symm, fun h => hf.zero (List.mem_of_mem_tail h)⟩
  · have hpos : 0 < psmMaxAwakeNodesListLen := by decide
    simp only [List.length_cons, List.length_tail]
    omega

/-- Some memory is allocated next to the list. -/
theorem inv_of_grow (ht : t.Inv) {mem : Heap (Block MacAddr)} (hlink : t.isLinking = false)
    (hmem : ∀ x c, t.mem.get x = some c → mem.get x = some c) :
    ({ t with mem := mem } : MemState).Inv ∧ ({ t with mem := mem } : MemState).addrs = t.addrs := by
  obtain ⟨root, cells, hl, hnd, hzero, hlen⟩ := ht.holds hlink
  have hl' := hl.grow hmem
  have haddrs : ({ t with mem := mem } : MemState).addrs = t.addrs := hl'.addrs_eq
  refine ⟨⟨⟨ht.sound.fault, t.addrs, ?_, hnd, hzero, hlen⟩, ht.senders, fun sa hsa hpre => ?_⟩,
    haddrs⟩
  · rw [MemState.settled_eq (by exact hlink)]
    exact ⟨root, cells, hl'⟩
  · rw [haddrs]
    exact ht.unlisted sa hsa hpre

theorem Adding.push {h : Heap (Block MacAddr)} {list : Ptr} {cells : List (Nat × Nat)}
    (hadd : Adding h list root cells p sa none) :
    Adding (h.push (.node none none)) list root cells p sa (some h.bound) := by
  obtain ⟨l, rest, hl, hp, -⟩ := hadd
  have hgrow : ∀ x c, h.get x = some c → (h.push (.node none none)).get x = some c :=
    fun x c hx => Heap.push_get_of_some h _ hx
  refine ⟨l, rest, hl.grow hgrow, ⟨hgrow p _ hp.block, hp.new⟩, fun n hn => ?_⟩
  obtain rfl : h.bound = n := Option.some.inj hn
  refine ⟨Heap.push_get_bound h _, ?_, fun hmem => ?_⟩
  · obtain ⟨v, n, hroot⟩ := hl.shape.root_get
    exact (Nat.ne_of_lt (Heap.lt_bound hroot)).symm
  · obtain ⟨x, hx, heq⟩ := List.mem_map.mp hmem
    obtain ⟨n, hn⟩ := (hl.shape.seg (List.ne_nil_of_mem hx)).get_of_mem hx
    exact absurd heq (Nat.ne_of_lt (Heap.lt_bound hn))

theorem Adding.refuse {h : Heap (Block MacAddr)} {list : Ptr} {cells : List (Nat × Nat)}
    (hadd : Adding h list root cells p sa none) : Adding h.refuse list root cells p sa none := by
  obtain ⟨l, rest, hl, hp, -⟩ := hadd
  exact ⟨l, rest, hl.grow fun _ _ hx => hx, ⟨hp.block, hp.new⟩, nofun⟩

/-- `linked_list_add_tail` for an address that is not listed. -/
theorem sat_addTail (hstage : s.stage = .holding sa)
    (hadd : Adding s.mem s.list root [] p sa none) (hun : sa ∉ s.addrs) (hsa : sa ≠ 0) :
    Sat rely (addTail (some root) (some p)) Filled s := by
  refine sat_onMem fun t hst ht => ?_
  have hstage' : t.stage = .holding sa := hst.stage.trans hstage
  have hlink := MemState.isLinking_of_holding hstage'
  have hun' := hst.unlisted sa hstage hun
  have hadd' := hst.adding sa hstage _ _ _ _ _ hadd
  obtain ⟨l, cells, hl, hp, -⟩ := hadd'.fits ht hlink hun' hsa
  rw [List.nil_append] at hl hp
  obtain ⟨v, n, hroot⟩ := hl.shape.root_get
  refine LinkedList.wp_loadNode hroot ⟨ht, ?_⟩
  split
  next => exact sat_storeRoot hstage' hadd' hun' hsa
  next hv =>
    have hne : cells ≠ [] := by
      rintro rfl
      rw [hl.shape.root_of_nil] at hroot
      simp only [Option.some.injEq, Block.node.injEq] at hroot
      exact hv hroot.1.symm
    have hknown : Adding t.mem t.list root cells p sa none :=
      ⟨l, [], by rwa [List.append_nil], by rwa [List.append_nil], nofun⟩
    refine sat_onMem fun u htu hu => ?_
    have hstage'' : u.stage = .holding sa := htu.stage.trans hstage'
    have hun'' := htu.unlisted sa hstage' hun'
    obtain ⟨l', rest, hl', hp', -⟩ := (htu.adding sa hstage' _ _ _ _ _ hknown).fits hu
      (MemState.isLinking_of_holding hstage'') hun'' hsa
    obtain ⟨l0, x, hcat⟩ := (List.eq_nil_or_concat (cells ++ rest)).resolve_left (by simp [hne])
    rw [hcat] at hl' hp'
    rw [List.concat_eq_append] at hl' hp'
    rw [← hl'.list_eq]
    refine (wp_findLast hl').mono fun r mem hr => ?_
    obtain ⟨rfl, rfl⟩ := hr
    refine ⟨hu, ?_⟩
    dsimp only
    split
    next => exact filled_ret (MemState.isLinking_of_holding hstage'')
    next hroom =>
      have hlast : Adding u.mem u.list root (l0 ++ [x]) p sa none :=
        ⟨l', [], by rwa [List.append_nil], by rwa [List.append_nil], nofun⟩
      have hlen : l0.length + 1 < psmMaxAwakeNodesListLen := by
        have hcells := hl'.length
        rw [List.length_append, List.length_singleton] at hcells
        omega
      refine sat_onMem fun v huv hv => ?_
      have hstage3 : v.stage = .holding sa := huv.stage.trans hstage''
      have hlink3 := MemState.isLinking_of_holding hstage3
      have hun3 := huv.unlisted sa hstage'' hun''
      have hlast' := huv.adding sa hstage'' _ _ _ _ _ hlast
      refine Wp.malloc (fun _ => ?_) fun _ => ?_
      · obtain ⟨hinv, haddrs⟩ := inv_of_grow hv hlink3
          fun x c hx => Heap.push_get_of_some v.mem _ hx
        exact ⟨hinv, sat_link hstage3 hlast'.push (haddrs ▸ hun3) hsa hlen⟩
      · have hkeep : ∀ x c, v.mem.get x = some c → v.mem.refuse.get x = some c :=
          fun _ _ hx => hx
        obtain ⟨hinv, haddrs⟩ := inv_of_grow hv hlink3 hkeep
        exact ⟨hinv, sat_link hstage3 hlast'.refuse (haddrs ▸ hun3) hsa hlen⟩

/-- `ieee80211_psm_add_awake_node` for an address that is not listed. -/
theorem sat_addAwakeNode (hstage : s.stage = .holding sa) (hun : sa ∉ s.addrs) (hsa : sa ≠ 0) :
    Sat rely (addAwakeNode sa) Filled s := by
  refine sat_onMem fun t hst ht => ?_
  have hstage' : t.stage = .holding sa := hst.stage.trans hstage
  have hlink := MemState.isLinking_of_holding hstage'
  have hun' := hst.unlisted sa hstage hun
  refine Wp.malloc (fun _ => ?_) fun _ => ?_
  · obtain ⟨hinv, haddrs⟩ := inv_of_grow ht hlink fun x c hx => Heap.push_get_of_some t.mem _ hx
    refine ⟨hinv, ?_⟩
    obtain ⟨root, cells, hl, -⟩ := ht.holds hlink
    obtain ⟨hl', hp⟩ := hl.push 0
    have hadd : Adding (t.mem.push (.payload 0)) t.list root [] t.mem.bound 0 none :=
      ⟨_, cells, hl', hp, nofun⟩
    have hun'' : sa ∉ ({ t with mem := t.mem.push (.payload 0) } : MemState).addrs :=
      haddrs ▸ hun'
    rw [if_neg (Option.some_ne_none _)]
    refine sat_onMem fun u htu hu => ?_
    have hstage'' : u.stage = .holding sa := htu.stage.trans hstage'
    have hlink' := MemState.isLinking_of_holding hstage''
    obtain ⟨l, rest, hl2, hp2, -, hf, hlen⟩ := (htu.adding sa hstage' _ _ _ _ _ hadd).fits hu hlink'
      (htu.unlisted sa hstage' hun'') hsa
    refine (wp_store_spare hl2 hp2).mono fun _ mem hmem => ?_
    obtain ⟨hl3, hp3⟩ := hmem
    obtain ⟨hinv', hun3⟩ := inv_of_holds hu hstage'' hl3 hf hlen
    have hadd' : Adding mem u.list root [] t.mem.bound sa none := ⟨l, rest, hl3, hp3, nofun⟩
    refine ⟨hinv', Sat.read_bind fun v huv hv => ?_⟩
    have hadd'' : Adding v.mem v.list root [] t.mem.bound sa none :=
      huv.adding sa hstage'' _ _ _ _ _ hadd'
    obtain ⟨l', rest', hl4, -⟩ := id hadd''
    rw [hl4.list_eq]
    exact sat_addTail (huv.stage.trans hstage'') hadd'' (huv.unlisted sa hstage'' hun3) hsa
  · have hkeep : ∀ x c, t.mem.get x = some c → t.mem.refuse.get x = some c := fun _ _ hx => hx
    obtain ⟨hinv, -⟩ := inv_of_grow ht hlink hkeep
    exact ⟨hinv, filled_ret hlink⟩

theorem sat_rxListSender (hstage : s.stage = .holding sa) (hsa : sa ≠ 0) :
    Sat rely (rxListSender sa) Filled s := by
  refine Sat.read_bind fun t hst ht => ?_
  have hst : Undisturbed s t := hst
  have ht : t.Inv := ht
  have hstage' : t.stage = .holding sa := hst.stage.trans hstage
  split
  next hpre => exact sat_addAwakeNode hstage' (ht.unlisted sa hstage' hpre) hsa
  next =>
    refine sat_onMem fun u htu hu => ?_
    have hstage'' : u.stage = .holding sa := htu.stage.trans hstage'
    have hlink := MemState.isLinking_of_holding hstage''
    obtain ⟨root, cells, hl, -, -, hlen⟩ := hu.holds hlink
    have hlen' : u.addrs.length < 2 ^ 16 := Nat.lt_of_le_of_lt hlen (by decide)
    refine (wp_isListed hl hlen').mono fun awake mem hawake => ?_
    obtain ⟨rfl, rfl⟩ := hawake
    by_cases hmem : sa ∈ u.addrs
    · -- the sender is listed already
      rw [decide_eq_true hmem]
      refine ⟨?_, filled_ret rfl⟩
      refine ⟨⟨hu.sound.fault, ?_⟩, hu.senders, nofun⟩
      have hlist := hu.sound.list
      rwa [MemState.settled_eq hlink] at hlist
    · rw [decide_eq_false hmem]
      exact ⟨hu, sat_addAwakeNode hstage'' hmem hsa⟩

theorem sat_rxProcessAtim {mgmt : AtimMgmt}
    (hstage : cf.accepts mgmt.da ∧ cf.confPs = true → s.stage = .holding mgmt.sa)
    (hidle : s.isLinking = false) (hsa : mgmt.sa ≠ 0) :
    Sat rely (rxProcessAtim cf mgmt) Filled s := by
  refine Sat.read_bind fun t hst ht => Sat.read_bind fun u htu hu => ?_
  have hsu : Undisturbed s u := Undisturbed.trans hst htu
  split
  next => exact filled_ret (hsu.isLinking.trans hidle)
  next =>
    split
    next hacc => exact sat_rxListSender (hsu.stage.trans (hstage hacc)) hsa
    next => exact filled_ret (hsu.isLinking.trans hidle)

/-- The frame is handled and dropped. -/
theorem inv_dropHead (hs : s.Inv) (hlink : s.isLinking = false) : (dropHead s).Inv := by
  refine ⟨⟨hs.sound.fault, ?_⟩, fun m hm => hs.senders m (List.mem_of_mem_tail hm), nofun⟩
  have hlist := hs.sound.list
  rwa [MemState.settled_eq hlink] at hlist

variable (cf) in
/-- The head of the queue is held where it can be listed. -/
theorem inv_holdHead {mgmt : AtimMgmt} {rest : List AtimMgmt} (hs : s.Inv)
    (hidle : s.stage = .idle) (hqueue : s.rxPendingAtims = mgmt :: rest) :
    (holdHead cf s).Inv ∧ (holdHead cf s).rxPendingAtims = mgmt :: rest ∧
      (holdHead cf s).isLinking = false ∧
      (s.psmState ≠ .preTbtt → cf.accepts mgmt.da ∧ cf.confPs = true →
        (holdHead cf s).stage = .holding mgmt.sa) := by
  have hlink : s.isLinking = false := by simp [MemState.isLinking, hidle]
  unfold holdHead
  rw [hqueue]
  dsimp only
  split
  next hhold =>
    refine ⟨⟨⟨hs.sound.fault, ?_⟩, hqueue ▸ hs.senders, ?_⟩, rfl, rfl, fun _ _ => rfl⟩
    · have hlist := hs.sound.list
      rwa [MemState.settled_eq hlink] at hlist
    · exact fun sa _ hpre => absurd hpre hhold.1
  next hno =>
    exact ⟨hs, hqueue, hlink, fun hpsm hacc => absurd ⟨hpsm, hacc⟩ hno⟩

/-- The handling of a received ATIM frame. -/
theorem sat_asyncRxCheck (hidle : s.stage = .idle) :
    Sat rely (asyncRxCheck cf) (fun _ t => t.stage = .idle) s := by
  refine Sat.read_bind fun t hst ht => ?_
  have hst : Undisturbed s t := hst
  have hidle' : t.stage = .idle := hst.stage.trans hidle
  split
  next => exact fun u htu _ => Undisturbed.stage htu |>.trans hidle'
  next hne =>
    refine Sat.atomically_bind fun u htu hu => ?_
    have htu : Undisturbed t u := htu
    have hu : u.Inv := hu
    have hidle'' : u.stage = .idle := htu.stage.trans hidle'
    obtain ⟨mgmt, rest, hqueue⟩ : ∃ mgmt rest, u.rxPendingAtims = mgmt :: rest := by
      obtain ⟨l, hl⟩ := htu.queue
      exact List.exists_cons_of_ne_nil (by simp [hl, hne])
    obtain ⟨hinv, hhold⟩ := inv_holdHead cf hu hidle'' hqueue
    refine ⟨hinv, ?_⟩
    split
    next hpre =>
      have hsame : holdHead cf u = u := by simp [holdHead, hqueue, hpre]
      rw [hsame]
      exact fun v huv _ => Undisturbed.stage huv |>.trans hidle''
    next hpre =>
      refine Sat.read_bind fun v huv hv => ?_
      have huv : Undisturbed (holdHead cf u) v := huv
      have hv : v.Inv := hv
      obtain ⟨l, hl⟩ := huv.queue
      rw [hhold.1] at hl
      have hmgmt : mgmt ∈ v.rxPendingAtims := by simp [hl]
      rw [show v.rxPendingAtims.head? = some mgmt by simp [hl]]
      have hlink : v.isLinking = false := huv.isLinking.trans hhold.2.1
      have hstage : cf.accepts mgmt.da ∧ cf.confPs = true → v.stage = .holding mgmt.sa :=
        fun hacc => huv.stage.trans (hhold.2.2 hpre hacc)
      refine (sat_rxProcessAtim hstage hlink (hv.senders mgmt hmgmt)).seq hv
        fun _ x hx hfilled => ?_
      refine Sat.modify fun y hxy hy => ?_
      have hxy : Undisturbed x y := hxy
      exact ⟨inv_dropHead hy (hxy.isLinking.trans hfilled), fun z hyz _ => Undisturbed.stage hyz⟩

theorem sat_eraseNodesCheck (hidle : s.stage = .idle) :
    Sat rely eraseNodesCheck (fun _ t => t.stage = .idle) s := by
  refine Sat.read_bind fun t hst ht => ?_
  have hst : Undisturbed s t := hst
  have hidle' : t.stage = .idle := hst.stage.trans hidle
  split
  next =>
    refine Sat.modify_bind fun u htu hu => ?_
    have htu : Undisturbed t u := htu
    have hu : u.Inv := hu
    have hidle2 : u.stage = .idle := htu.stage.trans hidle'
    refine ⟨hu.of_eq rfl rfl rfl rfl hu.senders hu.unlisted, Sat.read_bind fun v huv hv => ?_⟩
    have huv : Undisturbed (clearEraseFlag u) v := huv
    have hidle3 : v.stage = .idle := huv.stage.trans hidle2
    split
    next =>
      refine sat_onMem fun x hvx hx => ?_
      have hidle4 : x.stage = .idle := hvx.stage.trans hidle3
      obtain ⟨root, cells, hl, -⟩ := hx.holds (by simp [MemState.isLinking, hidle4])
      have hempty := LinkedList.wp_isEmpty_shape hl.shape
      rw [← hl.list_eq] at hempty
      refine hempty.mono fun empty mem hempty => ?_
      obtain ⟨rfl, -⟩ := hempty
      refine ⟨hx, ?_⟩
      split
      next => exact fun y hxy _ => Undisturbed.stage hxy |>.trans hidle4
      next =>
        refine sat_onMem fun y hxy hy => ?_
        have hidle5 : y.stage = .idle := hxy.stage.trans hidle4
        have hlink : y.isLinking = false := by simp [MemState.isLinking, hidle5]
        obtain ⟨root, cells, hl, -⟩ := hy.holds hlink
        have herase := LinkedList.wp_eraseDeep hl.shape
        rw [← hl.list_eq] at herase
        refine herase.mono fun r mem hr => ?_
        obtain ⟨root', rfl, hr⟩ := hr
        obtain ⟨cells', hs', hnil, -⟩ := hr.shape
        obtain rfl : cells' = [] := List.map_eq_nil_iff.mp hnil
        refine ⟨⟨⟨hy.sound.fault, [], ?_, List.nodup_nil, nofun, by decide⟩, hy.senders, ?_⟩,
          fun z hyz _ => Undisturbed.stage hyz |>.trans hidle5⟩
        · rw [MemState.settled_eq (by exact hlink)]
          exact ⟨root', [], rfl, hs', rfl⟩
        · intro sa hsa
          have hsa : y.stage = .holding sa := hsa
          rw [hidle5] at hsa
          cases hsa
    next => exact fun x hvx _ => Undisturbed.stage hvx |>.trans hidle3
  next => exact fun u htu _ => Undisturbed.stage htu |>.trans hidle'

theorem sat_sendAtim {da a3 : MacAddr} (hidle : s.stage = .idle) :
    Sat rely (sendAtim cf da a3) (fun _ t => t.stage = .idle) s := by
  refine Sat.modify_bind fun t hst ht => ?_
  have ht : t.Inv := ht
  have hidle' : t.stage = .idle := (Undisturbed.stage hst).trans hidle
  refine ⟨ht.of_eq rfl rfl rfl rfl ht.senders ht.unlisted, Sat.modify_bind fun u htu hu => ?_⟩
  have hu : u.Inv := hu
  have hidle2 : u.stage = .idle := (Undisturbed.stage htu).trans hidle'
  refine ⟨hu.of_eq rfl rfl rfl rfl hu.senders hu.unlisted, ?_⟩
  split
  next =>
    refine Sat.modify fun v huv hv => ?_
    have hv : v.Inv := hv
    have hidle3 : v.stage = .idle := (Undisturbed.stage huv).trans hidle2
    exact ⟨hv.of_eq rfl rfl rfl rfl hv.senders hv.unlisted,
      fun x hvx _ => (Undisturbed.stage hvx).trans hidle3⟩
  next => exact fun v huv _ => (Undisturbed.stage huv).trans hidle2

end MainLoop

section Runs

variable {cf : Conf} {s : MemState} {c : Config MemState} {ls : List (Label Event Task)}

theorem MemState.Start.inv (hs : s.Start) : s.Inv := by
  obtain ⟨root, hlist, hroot⟩ := hs.list
  refine ⟨⟨hs.fault, [], ?_, List.nodup_nil, nofun, by decide⟩, ?_, ?_⟩
  · rw [MemState.settled_eq (by simp [MemState.isLinking, hs.stage])]
    exact ⟨root, [], hlist, LinkedList.shape_nil hroot, rfl⟩
  · simp [hs.rxPendingAtims]
  · simp [hs.stage]

/-- In every run that the guard admits the awake list is in order, whatever
interrupts the code that works on it. -/
theorem awakeList_of_run (hs : s.Start) (h : (machine cf).Run (guard cf) (.idle s) ls c) :
    c.state.Sound := by
  have hsound := h.sound (r := rely) (c := Config.idle s) (Q := fun t => t.stage = .idle)
    (fun _ _ _ ht hG ht' => inv_event ht hG ht') (fun k t _ hidle _ => ?_) hs.inv
    (fun _ hst _ => (Undisturbed.stage hst).trans hs.stage)
  · exact hsound.1.sound
  · cases k with
    | eraseNodesCheck => exact sat_eraseNodesCheck hidle
    | sendAtim da a3 => exact sat_sendAtim hidle
    | asyncRxCheck => exact sat_asyncRxCheck hidle

/-- An empty list, in the ATIM window. -/
def atimWindowStart : MemState where
  mem := ⟨fun a => if a = 0 then some (.node none none) else none, 1, fun _ => true, 0,
    fun a ha => if_neg (by omega)⟩
  list := some 0
  psmState := .atimWindow
  eraseAwakeNodesFlag := false
  txAtimWait := false
  lastAtimDA := 0
  lastAtimA3 := 0
  rxPendingAtims := []
  fault := false
  stage := .idle

theorem start_atimWindowStart : atimWindowStart.Start :=
  ⟨⟨0, rfl, rfl⟩, rfl, rfl, rfl⟩

/-- A sender is listed, then the two addresses of an acknowledged ATIM frame, and the
next PRE-TBTT erases them. -/
def listAndErase : List (Label Event Task) :=
  [.irq (.rxAtim ⟨0x1, 0xc, 0xb⟩ true)] ++ callFor .asyncRxCheck 13 ++
    callFor (.sendAtim 0xd 0xe) 3 ++ [.irq (.atimStatus ⟨0, true, true, true⟩)] ++
    [.irq .preTbtt] ++ callFor .eraseNodesCheck 5

theorem awakeList_of_run_listAndErase :
    ∃ c, (machine .multiHop).Run (guard .multiHop) (.idle atimWindowStart) listAndErase c ∧
      c.state.addrs = [] ∧ c.state.Sound := by
  obtain ⟨c, hc, hnil⟩ := Machine.exists_run_of_exec (machine .multiHop) (guard .multiHop)
    (.idle atimWindowStart) listAndErase (fun s => s.addrs = []) (by decide +kernel)
    (by decide +kernel)
  exact ⟨c, hc, hnil, awakeList_of_run start_atimWindowStart hc⟩

/-- An address that occurs twice is not in order. -/
theorem MemState.Sound.nodup_addrs (hs : s.Sound) (hlink : s.isLinking = false) :
    s.addrs.Nodup := by
  obtain ⟨l, hl, hnd, -⟩ := hs.list
  rw [MemState.settled_eq hlink] at hl
  have haddrs : s.addrs = l := hl.addrs_eq
  rw [haddrs]
  exact hnd

/-- In MH-PSM the next hop of a neighbour is the neighbour itself. When it
acknowledges its ATIM frame it is listed twice. -/
theorem not_sound_acknowledgedNeighbor :
    ¬ ∀ s ls c, s.Start → (machine .multiHop).Run Guard.any (.idle s) ls c → c.state.Sound := by
  intro hall
  obtain ⟨c, hc, haddrs, hlink⟩ := Machine.exists_run_of_exec (machine .multiHop) Guard.any
    (.idle atimWindowStart)
    (callFor (.sendAtim 0xb 0xb) 3 ++ [.irq (.atimStatus ⟨0, true, true, true⟩)])
    (fun s => s.addrs = [0xb, 0xb] ∧ s.isLinking = false) (by decide +kernel) (by decide)
  have hnd := (hall _ _ c start_atimWindowStart hc).nodup_addrs hlink
  rw [haddrs] at hnd
  exact absurd hnd (by decide)

end Runs

end Calipso.Ar9170.AwakeList
