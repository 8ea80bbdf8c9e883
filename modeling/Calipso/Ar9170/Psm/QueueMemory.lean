import Calipso.Cpu.ListOps
import Calipso.Ar9170.Psm.Handlers

/-!
# The transmission queues in memory

The functions that pick a packet, on a heap of list nodes, socket buffers and frames.
`prunes_iff` says when `ieee80211_psm_can_send_first_atim` leaves the ATIM queue as it
should be, and `selects_iff` the same of `ieee80211_psm_can_send_first_pkt` and the data
queue. The awake list is read through the state of the driver.
-/

namespace Calipso.Ar9170.Queue

open Memory HeapM

/-- What a block that is no list node holds: a socket buffer with its data pointer, or
a frame, of which only the first address is read. -/
inductive Item
  | skBuff (data : Ptr)
  | frame (addr1 : MacAddr)
  deriving DecidableEq

/-- Code on the memory of a queue. -/
abbrev Mem (α : Type) : Type := LinkedList.M Item α

section Code

/-- `skb->data`. -/
def loadData (p : Ptr) : Mem Ptr := do
  match ← load p with
  | .payload (.skBuff data) => pure data
  | .payload (.frame _) => fault (.wrongBlock (p.getD 0))
  | .node _ _ => fault (.wrongBlock (p.getD 0))

/-- `addr1` of the frame. -/
def loadAddr1 (p : Ptr) : Mem MacAddr := do
  match ← load p with
  | .payload (.frame addr1) => pure addr1
  | .payload (.skBuff _) => fault (.wrongBlock (p.getD 0))
  | .node _ _ => fault (.wrongBlock (p.getD 0))

/-- `ieee80211_psm_is_DA_awake`. -/
def isDAAwakeIn (s : State) (packet : Ptr) : Mem Bool :=
  if packet = none then pure false
  else do
    let data ← loadData packet
    if data = none then pure false
    else do
      let da ← loadAddr1 data
      pure (s.isRemoteDaAwake da && decide (s.psmState ≠ .preTbtt))

/-- How the walk along a queue ends. -/
inductive Found
  | index (i : Nat)
  | nowhere
  /-- There is an element without a packet. -/
  | empty
  deriving DecidableEq

/-- The walk from index `i` on, to the first packet the test is right for. -/
def walk (test : Ptr → Mem Bool) (queue : Ptr) : Nat → Nat → Mem Found
  | 0, _ => fault .unbounded
  | n + 1, i => do
      let len ← LinkedList.getLen queue
      if len ≤ i then pure .nowhere
      else do
        let packet ← LinkedList.getElementAt queue i
        if packet = none then pure .empty
        else do
          let hit ← test packet
          if hit then pure (.index i) else walk test queue n (i + 1)

/-- `sfree(an_atim->data)`, once. -/
def freeData (anAtim : Ptr) : Mem Unit := do
  let data ← loadData anAtim
  if data = none then pure ()
  else do
    free data
    store anAtim (.payload (.skBuff none))

/-- The loop that removes the ATIM packets in front of the one to send. -/
def dropFront : Nat → Ptr → Mem Ptr
  | 0, theAtimQueue => pure theAtimQueue
  | j + 1, theAtimQueue => do
      let (anAtim, _) ← LinkedList.loadNode theAtimQueue
      freeData anAtim
      let rest ← LinkedList.removeFirst theAtimQueue
      dropFront j rest

/-- The loop before the whole queue is erased: every turn looks at the first element. -/
def freeAllData (theAtimQueue : Ptr) : Nat → Nat → Mem Unit
  | 0, _ => fault .unbounded
  | n + 1, j => do
      let len ← LinkedList.getLen theAtimQueue
      if len ≤ j then pure ()
      else do
        let (anAtim, _) ← LinkedList.loadNode theAtimQueue
        if anAtim = none then freeAllData theAtimQueue n (j + 1)
        else do
          freeData anAtim
          freeAllData theAtimQueue n (j + 1)

/-- `!ieee80211_psm_is_DA_awake`. -/
def mustSend (s : State) (atim : Ptr) : Mem Bool := do
  let awake ← isDAAwakeIn s atim
  pure (!awake)

/-- `ieee80211_psm_can_send_first_atim`. -/
def canSendFirstAtim (s : State) (theAtimQueue : Ptr) : Mem Ptr := do
  let empty ← LinkedList.isEmpty theAtimQueue
  if empty then pure none
  else do
    let n ← LinkedList.turns
    match ← walk (mustSend s) theAtimQueue n 0 with
    | .empty => pure none
    | .index i => dropFront i theAtimQueue
    | .nowhere => do
        freeAllData theAtimQueue n 0
        LinkedList.erase theAtimQueue
        pure none

/-- `ieee80211_psm_can_send_first_pkt`. -/
def canSendFirstPkt (s : State) (theTxQueue : Ptr) : Mem Ptr := do
  let empty ← LinkedList.isEmpty theTxQueue
  if empty then pure none
  else do
    let n ← LinkedList.turns
    match ← walk (isDAAwakeIn s) theTxQueue n 0 with
    | .empty => pure none
    | .nowhere => pure none
    | .index i =>
        if i = 0 then pure theTxQueue else LinkedList.moveToFront theTxQueue i

end Code

/-! ### A queue of packets -/

/-- The data pointer of a block that is a socket buffer. -/
def dataPtr : Block Item → Ptr
  | .payload (.skBuff data) => data
  | .payload (.frame _) => none
  | .node _ _ => none

/-- The frame of a block that is one. -/
def frameAddr : Block Item → Option MacAddr
  | .payload (.frame addr1) => some addr1
  | .payload (.skBuff _) => none
  | .node _ _ => none

variable {s : State} {h h' : Heap (Block Item)} {root : Nat} {xs : List Nat}

/-- The data block of a packet. -/
def dataOf (h : Heap (Block Item)) (v : Nat) : Ptr := (h.get v).bind dataPtr

/-- The receiver of a packet, where it has data. -/
def addr1Of (h : Heap (Block Item)) (v : Nat) : Option MacAddr :=
  ((dataOf h v).bind h.get).bind frameAddr

/-- The packet has a receiver that is known to be awake. -/
def isAwake (s : State) (h : Heap (Block Item)) (v : Nat) : Bool :=
  (addr1Of h v).any s.isRemoteDaAwake

/-- The list at `root` holds the packets `xs`, and each of them has a data block of its
own, or none. -/
structure Packets (h : Heap (Block Item)) (root : Nat) (xs : List Nat) : Prop where
  shape : ∃ l, LinkedList.Shape h root l ∧ l.map Prod.snd = xs
  skBuff : ∀ v ∈ xs, ∃ data, h.get v = some (.payload (.skBuff data))
  frame : ∀ v ∈ xs, ∀ d, dataOf h v = some d → ∃ a, h.get d = some (.payload (.frame a))
  separate : ∀ v ∈ xs, ∀ w ∈ xs, ∀ d, dataOf h v = some d → dataOf h w = some d → v = w

/-- The packet and its data are as they were. -/
def Untouched (h h' : Heap (Block Item)) (v : Nat) : Prop :=
  h'.get v = h.get v ∧ ∀ d, dataOf h v = some d → h'.get d = h.get d

/-- The packet and its data have been freed. -/
def Freed (h h' : Heap (Block Item)) (v : Nat) : Prop :=
  h'.get v = none ∧ ∀ d, dataOf h v = some d → h'.get d = none

/-- Of the packets those of `gone` have been freed, and the list at `root'` holds
the others, which nobody has touched. -/
structure Leaves (h h' : Heap (Block Item)) (root' : Nat) (gone kept : List Nat) : Prop where
  queue : Packets h' root' kept
  freed : ∀ v ∈ gone, Freed h h' v
  untouched : ∀ v ∈ kept, Untouched h h' v

/-- The ATIM queue is what it should be when the caller has taken over the result:
the suffix from the first packet on that must be sent. -/
def Prunes (s : State) (h : Heap (Block Item)) (root : Nat) (xs : List Nat) : Prop :=
  Wp (canSendFirstAtim s (some root))
    (fun r h' => (r = none ↔ xs.dropWhile (isAwake s h) = []) ∧
      Leaves h h' (r.getD root) (xs.takeWhile (isAwake s h)) (xs.dropWhile (isAwake s h))) h

/-- The data queue is what it should be: with the first packet in front that can be
sent, and with the same packets in any case. -/
def Selects (s : State) (h : Heap (Block Item)) (root : Nat) (xs : List Nat) : Prop :=
  Wp (canSendFirstPkt s (some root))
    (fun r h' => (r ≠ none ↔ ∃ v ∈ xs, isAwake s h v = true) ∧
      ∃ ys, Leaves h h' (r.getD root) [] ys ∧ ys.Perm xs ∧
        (r ≠ none → ys = LinkedList.rotateToFront xs (xs.findIdx (isAwake s h)))) h

/-! ### The walk -/

theorem wp_loadData {v : Nat} {data : Ptr} {Q : Ptr → Heap (Block Item) → Prop}
    (hv : h.get v = some (.payload (.skBuff data))) (hQ : Q data h) :
    Wp (loadData (some v)) Q h :=
  Wp.bind (Wp.load hv (Wp.pure hQ))

theorem dataOf_eq {v : Nat} {data : Ptr} (hv : h.get v = some (.payload (.skBuff data))) :
    dataOf h v = data := by
  rw [dataOf, hv]
  rfl

theorem isRemoteDaAwake_and (s : State) (da : MacAddr) :
    (s.isRemoteDaAwake da && decide (s.psmState ≠ .preTbtt)) = s.isRemoteDaAwake da := by
  rw [State.isRemoteDaAwake, Bool.and_right_comm, Bool.and_self]

theorem wp_isDAAwakeIn {v : Nat} (hq : Packets h root xs) (hv : v ∈ xs) :
    Wp (isDAAwakeIn s (some v)) (fun b h' => h' = h ∧ b = isAwake s h v) h := by
  obtain ⟨data, hdata⟩ := hq.skBuff v hv
  have hptr : dataOf h v = data := dataOf_eq hdata
  unfold isDAAwakeIn
  rw [if_neg (Option.some_ne_none v)]
  refine Wp.bind (wp_loadData hdata ?_)
  cases data with
  | none =>
      refine Wp.pure ⟨rfl, ?_⟩
      simp [isAwake, addr1Of, hptr]
  | some d =>
      obtain ⟨a, ha⟩ := hq.frame v hv d hptr
      have haddr : addr1Of h v = some a := by
        rw [addr1Of, hptr, Option.bind_some, ha]
        rfl
      rw [if_neg (Option.some_ne_none d)]
      refine Wp.bind (Wp.bind (Wp.load ha (Wp.pure (Wp.pure ⟨rfl, ?_⟩))))
      rw [isAwake, haddr, isRemoteDaAwake_and]
      rfl

theorem wp_mustSend {v : Nat} (hq : Packets h root xs) (hv : v ∈ xs) :
    Wp (mustSend s (some v)) (fun b h' => h' = h ∧ b = !isAwake s h v) h := by
  refine Wp.bind ((wp_isDAAwakeIn hq hv).mono fun b h1 hb => ?_)
  obtain ⟨rfl, rfl⟩ := hb
  exact Wp.pure ⟨rfl, rfl⟩

/-- The walk finds the first packet the test is right for. -/
theorem wp_walk {test : Ptr → Mem Bool} {f : Nat → Bool} {n i : Nat} (hq : Packets h root xs)
    (htest : ∀ v ∈ xs, Wp (test (some v)) (fun b h' => h' = h ∧ b = f v) h)
    (hlen : xs.length < 2 ^ 16) (hi : i ≤ xs.length) (hn : xs.length < i + n) :
    Wp (walk test (some root) n i)
      (fun r h' => h' = h ∧
        r = ((xs.drop i).findIdx? f).elim .nowhere (fun k => .index (i + k))) h := by
  obtain ⟨l, hs, rfl⟩ := hq.shape
  rw [List.length_map] at hlen hi hn
  induction n generalizing i with
  | zero => omega
  | succ n ih =>
      refine Wp.bind ((LinkedList.wp_getLen hs).mono fun k h1 hk => ?_)
      obtain ⟨rfl, rfl⟩ := hk
      rw [Nat.mod_eq_of_lt hlen]
      split
      next hle =>
        refine Wp.pure ⟨rfl, ?_⟩
        rw [List.drop_eq_nil_of_le (by simpa using hle)]
        rfl
      next hgt =>
        have hlt : i < l.length := Nat.not_le.mp hgt
        have hlt' : i < (l.map Prod.snd).length := by simpa using hlt
        refine Wp.bind ((LinkedList.wp_getElementAt hs hlen i).mono fun q h2 hq2 => ?_)
        obtain ⟨rfl, rfl⟩ := hq2
        rw [List.getElem?_eq_getElem hlt, Option.map_some, if_neg (Option.some_ne_none _)]
        have hmem : l[i].2 ∈ l.map Prod.snd := List.mem_map_of_mem (List.getElem_mem hlt)
        refine Wp.bind ((htest _ hmem).mono fun b h3 hb => ?_)
        obtain ⟨rfl, rfl⟩ := hb
        rw [List.drop_eq_getElem_cons hlt', List.findIdx?_cons, List.getElem_map]
        cases hf : f l[i].2 with
        | true => exact Wp.pure ⟨rfl, rfl⟩
        | false =>
            refine (ih (by omega) (by omega)).mono fun r h4 hr => ?_
            obtain ⟨rfl, rfl⟩ := hr
            refine ⟨rfl, ?_⟩
            rw [if_neg (by simp)]
            cases (List.drop (i + 1) (l.map Prod.snd)).findIdx? f with
            | none => rfl
            | some k =>
                simp only [Option.elim_some, Option.map_some, Found.index.injEq]
                omega

theorem Packets.length_lt (hq : Packets h root xs) : xs.length < 0 + (h.bound + 1) := by
  obtain ⟨l, hs, rfl⟩ := hq.shape
  cases l with
  | nil => simp
  | cons x rest =>
      have hle := (hs.seg (List.cons_ne_nil x rest)).length_le_bound hs.nodes
      rw [List.length_map]
      omega

theorem Packets.nodup (hq : Packets h root xs) : xs.Nodup := by
  obtain ⟨l, hs, rfl⟩ := hq.shape
  exact hs.items

theorem Untouched.dataOf_eq {v : Nat} (hu : Untouched h h' v) : dataOf h' v = dataOf h v := by
  rw [dataOf, dataOf, hu.1]

/-- Packets nobody has touched are still packets where the list leads to them. -/
theorem Packets.of_untouched {root' : Nat} {ys : List Nat} (hq : Packets h root xs)
    (hshape : ∃ l, LinkedList.Shape h' root' l ∧ l.map Prod.snd = ys) (hsub : ys ⊆ xs)
    (hsame : ∀ v ∈ ys, Untouched h h' v) : Packets h' root' ys where
  shape := hshape
  skBuff v hv := by
    rw [(hsame v hv).1]
    exact hq.skBuff v (hsub hv)
  frame v hv d hd := by
    rw [(hsame v hv).dataOf_eq] at hd
    rw [(hsame v hv).2 d hd]
    exact hq.frame v (hsub hv) d hd
  separate v hv w hw d hd hd' := by
    rw [(hsame v hv).dataOf_eq] at hd
    rw [(hsame w hw).dataOf_eq] at hd'
    exact hq.separate v (hsub hv) w (hsub hw) d hd hd'

/-! ### Two packets -/

/-- A queue of two packets, the first one to `0xa` and the second one to `0xb`. -/
def twoPackets (mallocOk : Bool) : Heap (Block Item) :=
  (((((Heap.push ⟨fun _ => none, 0, fun _ => mallocOk, 0, fun _ _ => rfl⟩
    (.payload (.frame 0xa))).push (.payload (.frame 0xb))).push
    (.payload (.skBuff (some 0)))).push (.payload (.skBuff (some 1)))).push
    (.node (some 2) (some 5))).push (.node (some 3) none)

/-- The driver in the TX window, with these neighbors awake. -/
def hearing (awake : List MacAddr) : State := { State.init with wakeNeighbors := awake }

theorem packets_twoPackets (mallocOk : Bool) : Packets (twoPackets mallocOk) 4 [2, 3] := by
  have hshape : LinkedList.Shape (twoPackets mallocOk) 4 [(4, 2), (5, 3)] := by
    refine ⟨.inr ⟨List.cons_ne_nil _ _, ?_⟩, by decide, by decide, ?_⟩
    · exact ⟨rfl, some 5, rfl, rfl, none, rfl, rfl⟩
    · simp only [List.forall_mem_cons]
      exact ⟨⟨_, rfl⟩, ⟨_, rfl⟩, nofun⟩
  refine ⟨⟨_, hshape, rfl⟩, ?_, ?_, ?_⟩
  · simp only [List.forall_mem_cons]
    exact ⟨⟨_, rfl⟩, ⟨_, rfl⟩, nofun⟩
  · simp only [List.forall_mem_cons]
    refine ⟨fun d hd => ?_, fun d hd => ?_, nofun⟩
    · cases hd
      exact ⟨_, rfl⟩
    · cases hd
      exact ⟨_, rfl⟩
  · have htwo : dataOf (twoPackets mallocOk) 2 = some 0 := rfl
    have hthree : dataOf (twoPackets mallocOk) 3 = some 1 := rfl
    simp [htwo, hthree]

/-! ### The data queue -/

theorem Packets.untouched_of_refines {root' : Nat} {ys gone : List Nat} {l : List (Nat × Nat)}
    (hq : Packets h root xs) (hs : LinkedList.Shape h root l)
    (hr : LinkedList.Refines h root l h' root' ys gone) {v : Nat} (hv : v ∈ xs)
    (hgone : v ∉ gone) (hdata : ∀ d, dataOf h v = some d → d ∉ gone) : Untouched h h' v := by
  obtain ⟨data, hskb⟩ := hq.skBuff v hv
  refine ⟨hr.payload hs hskb hgone, fun d hd => ?_⟩
  obtain ⟨a, ha⟩ := hq.frame v hv d hd
  exact hr.payload hs ha (hdata d hd)

/-- The packets after an operation on their list that frees none of them. -/
theorem Packets.leaves_of_refines {root' : Nat} {ys : List Nat} {l : List (Nat × Nat)}
    (hq : Packets h root xs) (hs : LinkedList.Shape h root l)
    (hr : LinkedList.Refines h root l h' root' ys []) (hsub : ys ⊆ xs) :
    Leaves h h' root' [] ys := by
  have hsame : ∀ v ∈ ys, Untouched h h' v := fun v hv =>
    hq.untouched_of_refines hs hr (hsub hv) List.not_mem_nil fun _ _ => List.not_mem_nil
  obtain ⟨l', hs', hl', -⟩ := hr.shape
  exact ⟨hq.of_untouched ⟨l', hs', hl'⟩ hsub hsame, nofun, hsame⟩

theorem Packets.leaves_self (hq : Packets h root xs) : Leaves h h root [] xs :=
  ⟨hq, nofun, fun _ _ => ⟨rfl, fun _ _ => rfl⟩⟩

theorem rotateToFront_perm (xs : List Nat) (i : Nat) : (LinkedList.rotateToFront xs i).Perm xs := by
  rw [LinkedList.rotateToFront]
  cases hi : xs[i]? with
  | none => exact List.Perm.refl xs
  | some v =>
      obtain ⟨hlt, rfl⟩ := List.getElem?_eq_some_iff.mp hi
      exact List.getElem_cons_eraseIdx_perm hlt

/-- What is run once the first packet with an awake receiver has been looked for. -/
theorem wp_canSendFirstPkt {Q : Ptr → Heap (Block Item) → Prop} (hq : Packets h root xs)
    (hlen : xs.length < 2 ^ 16)
    (hnone : xs.findIdx? (isAwake s h) = none → Q none h)
    (hsome : ∀ i, xs.findIdx? (isAwake s h) = some i →
      Wp (if i = 0 then pure (some root) else LinkedList.moveToFront (some root) i) Q h) :
    Wp (canSendFirstPkt s (some root)) Q h := by
  obtain ⟨l, hs, hl⟩ := hq.shape
  refine Wp.bind ((LinkedList.wp_isEmpty_shape hs).mono fun b h1 hb => ?_)
  obtain ⟨rfl, rfl⟩ := hb
  by_cases hnil : l = []
  · subst hnil
    subst hl
    exact Wp.pure (hnone rfl)
  · rw [if_neg (by simpa using hnil)]
    refine Wp.bind (LinkedList.wp_turns ?_)
    refine Wp.bind ((wp_walk (i := 0) hq (fun v hv => wp_isDAAwakeIn (s := s) hq hv) hlen
      (Nat.zero_le _) hq.length_lt).mono fun r h2 hr => ?_)
    obtain ⟨rfl, rfl⟩ := hr
    rw [List.drop_zero]
    cases hfind : xs.findIdx? (isAwake s h2) with
    | none => exact Wp.pure (hnone hfind)
    | some i =>
        rw [Option.elim_some, Nat.zero_add]
        exact hsome i hfind

theorem findIdx?_isAwake {i : Nat} (hi : xs.findIdx? (isAwake s h) = some i) :
    i < xs.length ∧ xs.findIdx (isAwake s h) = i ∧ ∃ v ∈ xs, isAwake s h v = true := by
  obtain ⟨hlt, hidx⟩ := List.findIdx?_eq_some_iff_findIdx_eq.mp hi
  exact ⟨hlt, hidx, List.findIdx_lt_length.mp (hidx ▸ hlt)⟩

/-- A packet behind the front is lost where no node can be had for it. -/
theorem not_selects {i : Nat} (hq : Packets h root xs) (hlen : xs.length < 2 ^ 16)
    (hi : xs.findIdx? (isAwake s h) = some i) (hpos : 0 < i) (hno : h.willAlloc = false) :
    ¬ Selects s h root xs := by
  obtain ⟨l, hs, rfl⟩ := hq.shape
  obtain ⟨hlt, -, hex⟩ := findIdx?_isAwake hi
  rw [List.length_map] at hlen hlt
  have hlost : Wp (canSendFirstPkt s (some root)) (fun r _ => r = none) h := by
    refine wp_canSendFirstPkt hq (by simpa using hlen) (fun _ => rfl) fun j hj => ?_
    rw [hi, Option.some.injEq] at hj
    subst hj
    rw [if_neg (Nat.ne_of_gt hpos)]
    exact (LinkedList.wp_moveToFront_refused hs hlen hpos hlt hno).mono fun r _ hr => hr.1
  intro hsel
  obtain ⟨r, h', hres, rfl⟩ := hsel.and hlost
  exact hres.1.mpr hex rfl

/-- The data queue keeps its packets, and one that can be sent is found, where the
first such packet is in front or a node can be had for it. -/
theorem selects_iff (s : State) (h : Heap (Block Item)) (root : Nat) (xs : List Nat)
    (hq : Packets h root xs) (hlen : xs.length < 2 ^ 16) :
    Selects s h root xs ↔
      ∀ i, xs.findIdx? (isAwake s h) = some i → i = 0 ∨ h.willAlloc = true := by
  obtain ⟨l, hs, hl⟩ := hq.shape
  have hlen' : l.length < 2 ^ 16 := by
    rw [← hl, List.length_map] at hlen
    exact hlen
  constructor
  · intro hsel i hi
    by_contra hcon
    obtain ⟨hpos, hno⟩ := not_or.mp hcon
    exact not_selects hq hlen hi (Nat.pos_of_ne_zero hpos) (Bool.not_eq_true _ ▸ hno) hsel
  · intro hok
    refine wp_canSendFirstPkt hq hlen (fun hnone => ?_) fun i hi => ?_
    · have hsleep : ¬ ∃ v ∈ xs, isAwake s h v = true := by
        rintro ⟨v, hv, hawake⟩
        rw [List.findIdx?_eq_none_iff.mp hnone v hv] at hawake
        cases hawake
      refine ⟨?_, xs, hq.leaves_self, List.Perm.refl xs, fun hne => absurd rfl hne⟩
      simp only [ne_eq, not_true_eq_false, false_iff]
      exact hsleep
    · obtain ⟨hlt, hidx, hex⟩ := findIdx?_isAwake hi
      have hlt' : i < l.length := by
        rw [← hl, List.length_map] at hlt
        exact hlt
      by_cases hzero : i = 0
      · subst hzero
        refine Wp.pure ⟨?_, xs, hq.leaves_self, List.Perm.refl xs, fun _ => ?_⟩
        · simpa using hex
        · rw [hidx, LinkedList.rotateToFront_zero]
      · rw [if_neg hzero]
        refine (LinkedList.wp_moveToFront hs hlen'
          (Or.inr ⟨hlt', (hok i hi).resolve_left hzero⟩)).mono fun r h' hr => ?_
        obtain ⟨root', rfl, hr⟩ := hr
        rw [hl] at hr
        have hperm := rotateToFront_perm xs i
        refine ⟨?_, LinkedList.rotateToFront xs i, hq.leaves_of_refines hs hr hperm.subset, hperm,
          fun _ => by rw [hidx]⟩
        simpa using hex

theorem selects_iff_twoPackets :
    Selects (hearing [0xb]) (twoPackets true) 4 [2, 3] ↔
      ∀ i, [2, 3].findIdx? (isAwake (hearing [0xb]) (twoPackets true)) = some i →
        i = 0 ∨ (twoPackets true).willAlloc = true :=
  selects_iff (hearing [0xb]) (twoPackets true) 4 [2, 3] (packets_twoPackets true) (by decide)

/-- The second packet is to be sent first, and no node can be had: it is lost. -/
theorem not_selects_noNode : ¬ Selects (hearing [0xb]) (twoPackets false) 4 [2, 3] :=
  not_selects (i := 1) (packets_twoPackets false) (by decide) (by decide) (by decide) rfl

/-! ### Dropping ATIM packets -/

/-- The data of a packet has been freed; the packet is still there. -/
structure DataFreed (h : Heap (Block Item)) (v : Nat) (h' : Heap (Block Item)) : Prop where
  skBuff : h'.get v = some (.payload (.skBuff none))
  data : ∀ d, dataOf h v = some d → h'.get d = none
  others : ∀ a, a ≠ v → dataOf h v ≠ some a → h'.get a = h.get a
  bound : h'.bound = h.bound

theorem Packets.wp_freeData {v : Nat} (hq : Packets h root xs) (hv : v ∈ xs) :
    Wp (freeData (some v)) (fun _ h' => DataFreed h v h') h := by
  obtain ⟨data, hskb⟩ := hq.skBuff v hv
  have hptr : dataOf h v = data := dataOf_eq hskb
  refine Wp.bind (wp_loadData hskb ?_)
  cases data with
  | none =>
      refine Wp.pure ⟨hskb, fun d hd => ?_, fun _ _ _ => rfl, rfl⟩
      rw [hptr] at hd
      cases hd
  | some d =>
      obtain ⟨a, ha⟩ := hq.frame v hv d hptr
      have hne : v ≠ d := by
        rintro rfl
        rw [hskb] at ha
        cases ha
      rw [if_neg (Option.some_ne_none d)]
      refine Wp.bind (Wp.free ha ?_)
      have hskb' := (Heap.set_get_of_ne h none (Heap.lt_bound ha) hne).trans hskb
      refine Wp.store hskb' ⟨Heap.set_get_self _ _ _ _, fun e he => ?_, fun x hxv hxd => ?_, rfl⟩
      · rw [hptr, Option.some.injEq] at he
        subst he
        rw [Heap.set_get_of_ne _ _ _ hne.symm, Heap.set_get_self]
      · have hxd' : x ≠ d := by
          rintro rfl
          exact hxd hptr
        rw [Heap.set_get_of_ne _ _ _ hxv, Heap.set_get_of_ne _ _ _ hxd']

theorem Packets.skBuff_ne_data {v w d : Nat} (hq : Packets h root xs) (hv : v ∈ xs) (hw : w ∈ xs)
    (hd : dataOf h v = some d) : w ≠ d := by
  rintro rfl
  obtain ⟨a, ha⟩ := hq.frame v hv w hd
  obtain ⟨data, hdata⟩ := hq.skBuff w hw
  rw [hdata] at ha
  cases ha

theorem DataFreed.shape {v : Nat} {l : List (Nat × Nat)} (hf : DataFreed h v h')
    (hq : Packets h root xs) (hv : v ∈ xs) (hs : LinkedList.Shape h root l)
    (hl : l.map Prod.snd = xs) : LinkedList.Shape h' root l := by
  obtain ⟨data, hskb⟩ := hq.skBuff v hv
  obtain ⟨hroot, hnode⟩ := hs.not_node_of_payload hskb
  have hdata : ∀ d, dataOf h v = some d → d ≠ root ∧ d ∉ l.map Prod.fst := by
    intro d hd
    obtain ⟨a, ha⟩ := hq.frame v hv d hd
    exact hs.not_node_of_payload ha
  refine hs.frame_nodes ?_ (fun x hx => ?_) fun x hx => ?_
  · exact hf.others root hroot.symm fun hd => (hdata root hd).1 rfl
  · have hmem : x.1 ∈ l.map Prod.fst := List.mem_map_of_mem hx
    refine hf.others x.1 (fun heq => hnode (heq ▸ hmem)) fun hd => (hdata x.1 hd).2 hmem
  · have hmem : x.2 ∈ xs := hl ▸ List.mem_map_of_mem hx
    by_cases heq : x.2 = v
    · exact ⟨_, heq ▸ hf.skBuff⟩
    · obtain ⟨c, hc⟩ := hs.live x hx
      refine ⟨c, (hf.others x.2 heq fun hd => ?_).trans hc⟩
      exact hq.skBuff_ne_data hv hmem hd rfl

theorem DataFreed.untouched {v w : Nat} (hf : DataFreed h v h') (hq : Packets h root xs)
    (hv : v ∈ xs) (hw : w ∈ xs) (hne : w ≠ v) : Untouched h h' w := by
  refine ⟨hf.others w hne fun hd => hq.skBuff_ne_data hv hw hd rfl, fun d hd => ?_⟩
  refine hf.others d (fun heq => hq.skBuff_ne_data hw hv hd heq.symm) fun hd' => ?_
  exact hne (hq.separate w hw v hv d hd hd')

theorem DataFreed.later {v : Nat} (hf : DataFreed h v h') (hv : (h.get v).isSome) :
    Later h h' where
  dead a _ ha := by
    have hav : a ≠ v := by
      rintro rfl
      rw [ha] at hv
      cases hv
    by_cases hd : dataOf h v = some a
    · exact hf.data a hd
    · exact (hf.others a hav hd).trans ha
  bound := hf.bound.ge

theorem Untouched.trans {h'' : Heap (Block Item)} {v : Nat} (hu : Untouched h h' v)
    (hu' : Untouched h' h'' v) : Untouched h h'' v := by
  refine ⟨hu'.1.trans hu.1, fun d hd => ?_⟩
  have hd' : dataOf h' v = some d := hu.dataOf_eq.trans hd
  exact (hu'.2 d hd').trans (hu.2 d hd)

theorem Freed.later {h'' : Heap (Block Item)} {v : Nat} (hf : Freed h h' v)
    (hq : Packets h root xs) (hv : v ∈ xs) (hbound : h.bound ≤ h'.bound) (hl : Later h' h'') :
    Freed h h'' v := by
  obtain ⟨data, hskb⟩ := hq.skBuff v hv
  refine ⟨hl.dead v (Nat.lt_of_lt_of_le (Heap.lt_bound hskb) hbound) hf.1, fun d hd => ?_⟩
  obtain ⟨a, ha⟩ := hq.frame v hv d hd
  exact hl.dead d (Nat.lt_of_lt_of_le (Heap.lt_bound ha) hbound) (hf.2 d hd)

theorem Untouched.freed {h'' : Heap (Block Item)} {v : Nat} (hu : Untouched h h' v)
    (hf : Freed h' h'' v) : Freed h h'' v :=
  ⟨hf.1, fun d hd => hf.2 d (hu.dataOf_eq.trans hd)⟩

/-- One turn of the loop frees the first packet and its data. -/
theorem wp_dropFront_succ {v j : Nat} {Q : Ptr → Heap (Block Item) → Prop}
    (hq : Packets h root (v :: xs))
    (hQ : ∀ h' root', Later h h' → Leaves h h' root' [v] xs →
      Wp (dropFront j (some root')) Q h') :
    Wp (dropFront (j + 1) (some root)) Q h := by
  obtain ⟨l, hs, hl⟩ := hq.shape
  have hv : v ∈ v :: xs := List.mem_cons_self
  obtain ⟨data, hskb⟩ := hq.skBuff v hv
  cases l with
  | nil => cases hl
  | cons x rest =>
      obtain ⟨hxv, hxs⟩ : x.2 = v ∧ rest.map Prod.snd = xs := by
        simpa only [List.map_cons, List.cons.injEq] using hl
      obtain ⟨-, n, hn, -⟩ := hs.cons
      refine Wp.bind (LinkedList.wp_loadNode hn ?_)
      rw [hxv]
      refine Wp.bind ((hq.wp_freeData hv).mono fun _ h1 hf => ?_)
      have hs1 := hf.shape hq hv hs hl
      refine Wp.bind ((LinkedList.wp_removeFirst hs1).mono fun r h2 hr => ?_)
      obtain ⟨root', rfl, -, hr⟩ := hr
      rw [hl] at hr
      obtain ⟨l', hs', hl', -⟩ := hr.shape
      have hlater : Later h h2 :=
        (hf.later (by simp [hskb])).trans ⟨hr.dead, hr.bound⟩
      have hnot : v ∉ xs := (List.nodup_cons.mp hq.nodup).1
      refine hQ h2 root' hlater ?_
      have hsame : ∀ w ∈ xs, Untouched h h2 w := by
        intro w hw
        have hw' : w ∈ v :: xs := List.mem_cons_of_mem v hw
        have hne : w ≠ v := fun heq => hnot (heq ▸ hw)
        have hu := hf.untouched hq hv hw' hne
        obtain ⟨data', hdata'⟩ := hq.skBuff w hw'
        refine hu.trans ⟨?_, fun d hd => ?_⟩
        · exact hr.payload hs1 (hu.1.trans hdata') (by simpa using hne)
        · rw [hu.dataOf_eq] at hd
          obtain ⟨a, ha⟩ := hq.frame w hw' d hd
          refine hr.payload hs1 ((hu.2 d hd).trans ha) ?_
          simpa using (hq.skBuff_ne_data hw' hv hd).symm
      refine ⟨hq.of_untouched ⟨l', hs', hl'⟩ (List.subset_cons_self v xs) hsame, ?_, hsame⟩
      intro w hw
      rw [List.mem_singleton] at hw
      subst hw
      refine ⟨(hr.freed w (by simp)).2, fun d hd => ?_⟩
      obtain ⟨a, ha⟩ := hq.frame w hv d hd
      exact hr.dead d (hf.bound ▸ Heap.lt_bound ha) (hf.data d hd)

/-- The loop frees the packets in front and their data. -/
theorem wp_dropFront {j : Nat} (hq : Packets h root xs) (hj : j ≤ xs.length) :
    Wp (dropFront j (some root))
      (fun r h' => ∃ root', r = some root' ∧ Later h h' ∧
        Leaves h h' root' (xs.take j) (xs.drop j)) h := by
  induction j generalizing h root xs with
  | zero => exact Wp.pure ⟨root, rfl, Later.refl h, hq.leaves_self⟩
  | succ j ih =>
      cases xs with
      | nil => exact absurd hj (Nat.not_succ_le_zero j)
      | cons v xs =>
          refine wp_dropFront_succ hq fun h1 root1 hlater hone => ?_
          refine (ih hone.queue (Nat.le_of_succ_le_succ hj)).mono fun r h2 hr => ?_
          obtain ⟨root2, rfl, hlater', hrest⟩ := hr
          refine ⟨root2, rfl, hlater.trans hlater', hrest.queue, fun w hw => ?_, fun w hw => ?_⟩
          · rcases List.mem_cons.mp hw with rfl | hw
            · exact (hone.freed w (List.mem_singleton_self w)).later hq List.mem_cons_self
                hlater.bound hlater'
            · exact (hone.untouched w (List.mem_of_mem_take hw)).freed (hrest.freed w hw)
          · exact (hone.untouched w (List.mem_of_mem_drop hw)).trans (hrest.untouched w hw)

/-! ### Erasing all ATIM packets -/

/-- The turns of the loop after the first one find that the data is gone. -/
theorem wp_freeAllData_rest {l : List (Nat × Nat)} {x : Nat × Nat} {n j : Nat}
    (hs : LinkedList.Shape h root (x :: l)) (hx : h.get x.2 = some (.payload (.skBuff none)))
    (hlen : (x :: l).length < 2 ^ 16) (hj : j ≤ (x :: l).length)
    (hn : (x :: l).length < j + n) :
    Wp (freeAllData (some root) n j) (fun _ h' => h' = h) h := by
  obtain ⟨-, next, hnode, -⟩ := hs.cons
  induction n generalizing j with
  | zero => exact absurd hn (Nat.not_lt.mpr hj)
  | succ n ih =>
      refine Wp.bind ((LinkedList.wp_getLen hs).mono fun k h1 hk => ?_)
      obtain ⟨rfl, rfl⟩ := hk
      rw [Nat.mod_eq_of_lt hlen]
      split
      next => exact Wp.pure rfl
      next hgt =>
        refine Wp.bind (LinkedList.wp_loadNode hnode ?_)
        simp only [if_neg (Option.some_ne_none x.2)]
        refine Wp.bind (Wp.bind (wp_loadData hx (Wp.pure ?_)))
        exact ih (Nat.not_le.mp hgt) (by omega)

theorem Packets.wp_freeAllData {v n : Nat} (hq : Packets h root (v :: xs))
    (hlen : (v :: xs).length < 2 ^ 16) (hn : (v :: xs).length < n) :
    Wp (freeAllData (some root) n 0) (fun _ h' => DataFreed h v h') h := by
  obtain ⟨l, hs, hl⟩ := hq.shape
  have hv : v ∈ v :: xs := List.mem_cons_self
  cases n with
  | zero => exact absurd hn (Nat.not_lt_zero _)
  | succ n =>
      cases l with
      | nil => cases hl
      | cons x rest =>
          have hxv : x.2 = v := (List.cons.inj hl).1
          have hlen' : (x :: rest).length = (v :: xs).length := by
            rw [← hl, List.length_map]
          obtain ⟨-, next, hnode, -⟩ := hs.cons
          refine Wp.bind ((LinkedList.wp_getLen hs).mono fun k h1 hk => ?_)
          obtain ⟨rfl, rfl⟩ := hk
          rw [Nat.mod_eq_of_lt (hlen' ▸ hlen), if_neg (by simp)]
          refine Wp.bind (LinkedList.wp_loadNode hnode ?_)
          simp only [hxv, if_neg (Option.some_ne_none v)]
          refine Wp.bind ((hq.wp_freeData hv).mono fun _ h2 hf => ?_)
          have hs2 := hf.shape hq hv hs hl
          refine (wp_freeAllData_rest hs2 (hxv.symm ▸ hf.skBuff) (hlen' ▸ hlen) (by simp) ?_).mono
            fun _ h3 heq => ?_
          · rw [hlen']
            omega
          · rw [heq]
            exact hf

/-! ### The ATIM queue -/

/-- What is run once the first packet that must be sent has been looked for. -/
theorem wp_canSendFirstAtim {Q : Ptr → Heap (Block Item) → Prop} (hq : Packets h root xs)
    (hlen : xs.length < 2 ^ 16) (hnil : xs = [] → Q none h)
    (hnone : ∀ v rest, xs = v :: rest → (∀ w ∈ xs, isAwake s h w = true) →
      ∀ h', DataFreed h v h' → Wp (LinkedList.erase (some root)) (fun _ h'' => Q none h'') h')
    (hsome : ∀ i, xs.findIdx? (fun v => !isAwake s h v) = some i →
      Wp (dropFront i (some root)) Q h) :
    Wp (canSendFirstAtim s (some root)) Q h := by
  obtain ⟨l, hs, hl⟩ := hq.shape
  refine Wp.bind ((LinkedList.wp_isEmpty_shape hs).mono fun b h1 hb => ?_)
  obtain ⟨rfl, rfl⟩ := hb
  cases xs with
  | nil =>
      obtain rfl : l = [] := List.map_eq_nil_iff.mp hl
      exact Wp.pure (hnil rfl)
  | cons v rest =>
      have hne : l ≠ [] := by
        rintro rfl
        cases hl
      rw [if_neg (by simpa using hne)]
      refine Wp.bind (LinkedList.wp_turns ?_)
      refine Wp.bind ((wp_walk (i := 0) hq (fun w hw => wp_mustSend (s := s) hq hw) hlen
        (Nat.zero_le _) hq.length_lt).mono fun r h2 hr => ?_)
      obtain ⟨rfl, rfl⟩ := hr
      rw [List.drop_zero]
      cases hfind : (v :: rest).findIdx? (fun w => !isAwake s h2 w) with
      | none =>
          have hawake : ∀ w ∈ v :: rest, isAwake s h2 w = true := by
            intro w hw
            have hw' := List.findIdx?_eq_none_iff.mp hfind w hw
            simpa using hw'
          have hturns : (v :: rest).length < h2.bound + 1 := by
            have hlt := hq.length_lt
            omega
          refine Wp.bind ((hq.wp_freeAllData hlen hturns).mono fun _ h3 hf => ?_)
          refine Wp.bind ((hnone v rest rfl hawake h3 hf).mono fun _ h4 hQ => ?_)
          exact Wp.pure hQ
      | some i =>
          rw [Option.elim_some, Nat.zero_add]
          exact hsome i hfind

/-- Erasing leaves everything alone that is neither a node nor a packet. -/
theorem wp_erase_payload {l : List (Nat × Nat)} {d : Nat} {c : Item}
    (hs : LinkedList.Shape h root l) (hd : h.get d = some (.payload c))
    (hnot : d ∉ l.map Prod.snd) :
    Wp (LinkedList.erase (some root)) (fun _ h' => h'.get d = h.get d) h := by
  refine Wp.bind (LinkedList.wp_turns ?_)
  refine Wp.bind ((LinkedList.wp_eraseWith (fun hs => (LinkedList.wp_removeFirst hs).mono
    fun r h' hr => ?_) hs ?_).mono fun r h' hr => ?_)
  · obtain ⟨root', hroot, -, hr⟩ := hr
    exact ⟨root', hroot, hr⟩
  · cases l with
    | nil => exact Nat.succ_pos _
    | cons x rest =>
        have hle := (hs.seg (List.cons_ne_nil _ _)).length_le_bound hs.nodes
        omega
  · obtain ⟨root', -, hr⟩ := hr
    exact Wp.pure (hr.payload hs hd hnot)

theorem dataOf_of_isAwake {v : Nat} (hawake : isAwake s h v = true) :
    ∃ d, dataOf h v = some d := by
  cases hd : dataOf h v with
  | none =>
      rw [isAwake, addr1Of, hd] at hawake
      cases hawake
  | some d => exact ⟨d, rfl⟩

/-- Where all receivers are awake, the data of the second packet is not freed. -/
theorem not_prunes (hq : Packets h root xs) (hlen : xs.length < 2 ^ 16)
    (hawake : ∀ v ∈ xs, isAwake s h v = true) (hmore : 1 < xs.length) : ¬ Prunes s h root xs := by
  cases xs with
  | nil => cases hmore
  | cons v xs =>
      cases xs with
      | nil => exact absurd hmore (Nat.lt_irrefl 1)
      | cons w rest =>
          have hv : v ∈ v :: w :: rest := List.mem_cons_self
          have hw : w ∈ v :: w :: rest := List.mem_cons_of_mem v List.mem_cons_self
          have hne : w ≠ v := by
            have hnodup := hq.nodup
            rintro rfl
            simp at hnodup
          obtain ⟨d, hd⟩ := dataOf_of_isAwake (hawake w hw)
          obtain ⟨a, ha⟩ := hq.frame w hw d hd
          have hleak : Wp (canSendFirstAtim s (some root)) (fun _ h' => h'.get d = h.get d) h := by
            refine wp_canSendFirstAtim hq hlen (fun _ => rfl) ?_ ?_
            · intro v' rest' heq _ h1 hf
              obtain ⟨rfl, -⟩ := List.cons.inj heq
              obtain ⟨l, hs, hl⟩ := hq.shape
              have hsame : h1.get d = h.get d := (hf.untouched hq hv hw hne).2 d hd
              rw [← hsame]
              refine wp_erase_payload (hf.shape hq hv hs hl) (hsame.trans ha) ?_
              rw [hl]
              exact fun hmem => hq.skBuff_ne_data hw hmem hd rfl
            · intro i hi
              obtain ⟨x, hx, hsleep⟩ := List.findIdx_lt_length.mp
                ((List.findIdx?_eq_some_iff_findIdx_eq.mp hi).2 ▸
                  (List.findIdx?_eq_some_iff_findIdx_eq.mp hi).1)
              rw [hawake x hx] at hsleep
              cases hsleep
          intro hprunes
          obtain ⟨r, h', ⟨-, hleaves⟩, hkept⟩ := hprunes.and hleak
          have hgone : w ∈ (v :: w :: rest).takeWhile (isAwake s h) := by
            rw [List.takeWhile_cons_of_pos (hawake v hv), List.takeWhile_cons_of_pos (hawake w hw)]
            exact List.mem_cons_of_mem v List.mem_cons_self
          have hfreed := (hleaves.freed w hgone).2 d hd
          rw [hkept, ha] at hfreed
          cases hfreed

/-- The ATIM queue is what it should be, unless more than one packet is dropped and
none is left. -/
theorem prunes_iff (s : State) (h : Heap (Block Item)) (root : Nat) (xs : List Nat)
    (hq : Packets h root xs) (hlen : xs.length < 2 ^ 16) :
    Prunes s h root xs ↔ (∃ v ∈ xs, isAwake s h v = false) ∨ xs.length ≤ 1 := by
  constructor
  · intro hprunes
    by_contra hcon
    rw [not_or, Nat.not_le] at hcon
    obtain ⟨hall, hmore⟩ := hcon
    refine not_prunes hq hlen (fun v hv => ?_) hmore hprunes
    by_contra hsleep
    exact hall ⟨v, hv, Bool.not_eq_true _ ▸ hsleep⟩
  · intro hok
    refine wp_canSendFirstAtim hq hlen ?_ ?_ ?_
    · rintro rfl
      exact ⟨by simp, hq.leaves_self⟩
    · intro v rest heq hawake h1 hf
      have hone : xs.length ≤ 1 := by
        refine hok.resolve_left ?_
        rintro ⟨w, hw, hsleep⟩
        rw [hawake w hw] at hsleep
        cases hsleep
      subst heq
      obtain rfl : rest = [] := List.eq_nil_of_length_eq_zero (by simpa using hone)
      obtain ⟨l, hs, hl⟩ := hq.shape
      have hv : v ∈ [v] := List.mem_singleton_self v
      have hlen' : l.length ≤ 1 := by
        rw [← hl, List.length_map] at hone
        exact hone
      refine (LinkedList.wp_erase (hf.shape hq hv hs hl) hlen').mono fun _ h2 hr => ?_
      obtain ⟨l', hs', hl', -⟩ := hr.shape
      rw [List.takeWhile_cons_of_pos (hawake v hv), List.dropWhile_cons_of_pos (hawake v hv)]
      refine ⟨by simp, ⟨⟨l', hs', hl'⟩, nofun, nofun, nofun⟩, fun w hw => ?_, nofun⟩
      obtain rfl : w = v := List.mem_singleton.mp hw
      refine ⟨(hr.freed w (by simp [hl])).2, fun d hd => ?_⟩
      obtain ⟨a, ha⟩ := hq.frame w hv d hd
      exact hr.dead d (hf.bound ▸ Heap.lt_bound ha) (hf.data d hd)
    · intro i hi
      obtain ⟨hlt, hidx⟩ := List.findIdx?_eq_some_iff_findIdx_eq.mp hi
      rw [List.takeWhile_eq_take_findIdx_not, List.dropWhile_eq_drop_findIdx_not, hidx]
      refine (wp_dropFront hq (Nat.le_of_lt hlt)).mono fun r h1 hr => ?_
      obtain ⟨root', rfl, -, hleaves⟩ := hr
      refine ⟨?_, hleaves⟩
      have hrest : xs.drop i ≠ [] := by
        rw [ne_eq, List.drop_eq_nil_iff]
        exact Nat.not_le.mpr hlt
      simp [hrest]

theorem prunes_iff_twoPackets :
    Prunes (hearing [0xa]) (twoPackets true) 4 [2, 3] ↔
      (∃ v ∈ [2, 3], isAwake (hearing [0xa]) (twoPackets true) v = false) ∨ 2 ≤ 1 :=
  prunes_iff (hearing [0xa]) (twoPackets true) 4 [2, 3] (packets_twoPackets true) (by decide)

/-- Both receivers are awake: the data of the second packet is never freed. -/
theorem not_prunes_bothAwake : ¬ Prunes (hearing [0xa, 0xb]) (twoPackets true) 4 [2, 3] :=
  not_prunes (packets_twoPackets true) (by decide) (by decide) (by decide)

end Calipso.Ar9170.Queue
