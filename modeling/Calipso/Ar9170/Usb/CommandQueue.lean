import Calipso.Ar9170.Usb.Pipe

/-!
# Delivery of the commands

Each command that enters `cmd_list` is submitted once and in order, and freed
once and after its own transfer, as long as the endpoint takes what is submitted
to it while it is idle, each transfer ends well, its callback does not strike
while the main loop relies on the head or the tail of the list, and the list has
room for the next command.
-/

namespace Calipso.Ar9170.Usb

open Interrupt OutPipe

/-- The chunk is a new one. -/
def Fresh (c : Chunk) (brk : Nat) (p : OutPipe) : Prop :=
  c.buffer < brk ∧ ∀ d ∈ p.accepted, d.buffer ≠ c.buffer

/-- The list has room for one more command. -/
def HasRoom (p : OutPipe) : Prop := p.list.length ≤ ar9170MaxCmdBufferLen + 1

/-- The main loop has locked the list to add the chunk to it. -/
structure Writing (c : Chunk) (held : Bool) (brk : Nat) (p : OutPipe) : Prop where
  bufLock : p.bufLock = true
  held : p.held = held
  asyncLock : p.asyncLock = true → p.transfer.isSome = true
  fresh : Fresh c brk p
  room : HasRoom p

/-- The main loop is about to submit the head of the list. -/
structure Loaded (c : Chunk) (p : OutPipe) : Prop where
  bufLock : p.bufLock = false
  head : p.head = some c
  fixed : p.Fixed

variable {e : Endpoint} {J : OutPipe → Prop} {brk : Nat} {p q : OutPipe} {s t : State}

/-! ### Stability -/

theorem settled_stable : CalmStable fun _ => Settled :=
  fun _ _ _ hp h => hp.calm h

theorem Fresh.calm {c : Chunk} (hp : Fresh c brk p) (h : Calm p q) : Fresh c brk q := by
  refine ⟨hp.1, ?_⟩
  rw [h.accepted]
  exact hp.2

theorem HasRoom.calm (hp : HasRoom p) (h : Calm p q) : HasRoom q :=
  Nat.le_trans h.length hp

theorem asyncLock_calm (hp : p.asyncLock = true → p.transfer.isSome = true) (h : Calm p q) :
    q.asyncLock = true → q.transfer.isSome = true := by
  intro hq
  obtain ⟨hlock, ht⟩ := h.asyncLock hq
  rw [ht]
  exact hp hlock

theorem writing_stable (c : Chunk) (held : Bool) : CalmStable (Writing c held) := by
  intro brk p q hp h
  constructor
  · exact h.bufLock.trans hp.bufLock
  · exact h.held.trans hp.held
  · exact asyncLock_calm hp.asyncLock h
  · exact hp.fresh.calm h
  · exact hp.room.calm h

theorem Loaded.calm {c : Chunk} (hp : Loaded c p) (h : Calm p q) : Loaded c q where
  bufLock := h.bufLock.trans hp.bufLock
  head := (h.head hp.fixed).trans hp.head
  fixed := h.isFixed hp.fixed

/-! ### The end of the list -/

/-- Each node leads to the next one. -/
theorem nextOf_append {l rest : List SendList} {n : SendList}
    (h : ((l ++ n :: rest).map (·.addr)).Nodup) :
    nextOf n.addr (l ++ n :: rest) = some (rest.head?.map (·.addr)) := by
  induction l with
  | nil => simp [nextOf]
  | cons m l ih =>
      rw [List.cons_append, List.map_cons, List.nodup_cons] at h
      have hm : m.addr ≠ n.addr := by
        intro heq
        apply h.1
        rw [heq]
        exact List.mem_map_of_mem (by simp)
      rw [List.cons_append, nextOf, if_neg hm]
      exact ih h.2

/-- While the list stays as it is, the search ends at its last node. -/
theorem sat_findTail {r : Rely State} {K : State → Prop} {l : List SendList}
    (hK : ∀ s t, K s → r.rel s t → K t) (hlist : ∀ s, K s → (s.pipe e).list = l)
    (hnodup : (l.map (·.addr)).Nodup) (rest before : List SendList) (n : SendList)
    (hl : l = before ++ n :: rest) (turns counter : Nat) (hturns : rest.length < turns)
    (hs : K s) (hinv : r.inv s) :
    Sat r (findTail e turns n.addr counter)
      (fun found t => (∃ a, l.getLast?.map (·.addr) = some a ∧
        found = some (a, counter + rest.length)) ∧ K t) s := by
  induction rest generalizing before n turns counter s with
  | nil =>
      obtain ⟨turns, rfl⟩ := Nat.exists_eq_succ_of_ne_zero (Nat.ne_of_gt hturns)
      refine Sat.read_bind fun t hst ht => ?_
      have hKt := hK s t hs hst
      have hnext : nextOf n.addr (t.pipe e).list = some none := by
        rw [hlist t hKt, hl]
        rw [hl] at hnodup
        exact nextOf_append hnodup
      rw [hnext]
      intro u htu _
      exact ⟨⟨n.addr, by simp [hl], rfl⟩, hK t u hKt htu⟩
  | cons m rest ih =>
      obtain ⟨turns, rfl⟩ := Nat.exists_eq_succ_of_ne_zero (Nat.ne_of_gt (Nat.zero_lt_of_lt hturns))
      refine Sat.read_bind fun t hst ht => ?_
      have hKt := hK s t hs hst
      have hnext : nextOf n.addr (t.pipe e).list = some (some m.addr) := by
        rw [hlist t hKt, hl]
        rw [hl] at hnodup
        exact nextOf_append hnodup
      rw [hnext]
      have hsplit : l = (before ++ [n]) ++ m :: rest := by rw [hl]; simp
      have hturns' : rest.length < turns := by simpa using hturns
      have hih := ih (before ++ [n]) m hsplit turns (counter + 1) hturns' hKt ht
      refine hih.mono fun found u _ hu => ?_
      obtain ⟨⟨a, ha, hfound⟩, hKu⟩ := hu
      refine ⟨⟨a, ha, ?_⟩, hKu⟩
      rw [hfound, List.length_cons, Nat.add_assoc, Nat.add_comm 1]

/-- The new node is linked behind the last one, or its allocation fails. -/
theorem sat_appendTail {c : Chunk} {full : Nat → Bool} {nodeOk : Bool}
    (hfull : ∀ n, n ≤ ar9170MaxCmdBufferLen → full n = false)
    (hs : At e (fun brk p => Writing c true brk p ∧ p.head.isSome = true) s)
    (hinv : (pipeRely e J).inv s) :
    Sat (pipeRely e J) (appendTail e full c nodeOk)
      (fun _ t => At e (fun _ => Settled) t) s := by
  have hstable : CalmStable fun brk p => Writing c true brk p ∧ p.head.isSome = true := by
    intro brk p q hp h
    refine ⟨writing_stable c true brk p q hp.1 h, ?_⟩
    rw [h.head (.inr hp.1.held)]
    exact hp.2
  unfold appendTail
  refine Sat.read_bind fun t hst ht => ?_
  obtain ⟨hwt, hwriting, hhead⟩ := hs.stable hstable hst
  obtain ⟨c₀, hhead⟩ := Option.isSome_iff_exists.mp hhead
  obtain ⟨a, rest, hlist, -⟩ := ht.1.list_of_head_some hhead
  -- the list is fixed from here on: `held` is set and no transfer ends
  have hstable' : CalmStable fun brk p => Writing c true brk p ∧ p.list = (t.pipe e).list := by
    intro brk p q hp h
    exact ⟨writing_stable c true brk p q hp.1 h, (h.fixed (.inr hp.1.held)).1.trans hp.2⟩
  have hat : At e (fun brk p => Writing c true brk p ∧ p.list = (t.pipe e).list) t :=
    ⟨hwt, hwriting, rfl⟩
  have htail := sat_findTail (r := pipeRely e J) (fun _ _ hat h => hat.stable hstable' h)
    (fun _ hat => hat.2.2) ht.1.nodup rest [] ⟨a, some c₀⟩ hlist (t.pipe e).list.length 0
    (by simp [hlist]) hat ht
  have hroot : ((t.pipe e).list.head?.map (·.addr)).getD 0 = a := by simp [hlist]
  simp only [hroot]
  apply htail.seq ht
  intro found u hu hfound
  obtain ⟨⟨b, hb, rfl⟩, hatu⟩ := hfound
  have hcounter : full (0 + rest.length) = false := by
    apply hfull
    have hroom := hwriting.room
    rw [HasRoom, hlist, List.length_cons] at hroom
    rw [Nat.zero_add]
    exact Nat.le_of_succ_le_succ hroom
  simp only [hcounter, Bool.false_eq_true, if_false]
  have hunlock : ∀ v, At e (fun brk p => p.bufLock = true ∧ p.held = false ∧
      (p.asyncLock = true → p.transfer.isSome = true)) v →
      Sat (pipeRely e J) (Prog.atomically (fun _ => true) (·.on e .completeBuf))
        (fun _ w => At e (fun _ => Settled) w) v := by
    intro v hv
    refine sat_atomically_on (g := fun _ => true) (Q := fun _ _ => Settled) ?_
      (fun _ => settled_stable) ?_ hv
    · intro brk p q hp h
      exact ⟨h.bufLock.trans hp.1, h.held.trans hp.2.1, asyncLock_calm hp.2.2 h⟩
    · intro brk p hp hordered
      exact ⟨hordered.frame (Nat.le_refl _) rfl, rfl, hp.2.1, hp.2.2⟩
  cases nodeOk with
  | false =>
      refine sat_atomically_on (g := fun _ => false) (Q := fun _ _ => Settled) hstable'
        (fun _ => settled_stable) ?_ hatu
      intro brk p hp hordered
      exact ⟨hordered.frame (Nat.le_refl _) rfl, rfl, rfl, hp.1.asyncLock⟩
  | true =>
      refine Sat.modify_bind fun v huv hv => ?_
      obtain ⟨hwv, hwriting', hlist'⟩ := hatu.stable hstable' huv
      have hheadv : (v.pipe e).head = some c₀ := by simp [OutPipe.head, hlist', hlist]
      obtain ⟨hordered, hlink⟩ := hv.1.link hheadv (by rw [hlist']; exact hb)
        hwriting'.fresh.1 hwriting'.fresh.2
      have hpipe : ({ v.on e (.link b v.brk c) with brk := v.brk + 1 } : State).pipe e =
          (v.pipe e).link b v.brk c := by cases e <;> rfl
      have hwv' : ({ v.on e (.link b v.brk c) with brk := v.brk + 1 } : State).waiting = none := by
        cases e <;> exact hwv
      refine ⟨⟨by rw [hpipe]; exact hordered, fun h => by rw [hwv'] at h; cases h⟩, ?_⟩
      apply hunlock
      refine ⟨hwv', ?_⟩
      rw [hpipe, hlink]
      exact ⟨hwriting'.bufLock, rfl, hwriting'.asyncLock⟩

/-! ### Commands -/

/-- The endpoint takes the head of the list, or it is busy with it. -/
theorem sat_usbSendCmd {c : Chunk} (hs : At .intOut (fun _ => Loaded c) s)
    (hinv : (pipeRely .intOut J).inv s) :
    Sat (pipeRely .intOut J) (usbSendCmd (some c) true)
      (fun _ t => At .intOut (fun _ => Settled) t) s := by
  have hloaded : CalmStable fun _ => Loaded c := fun _ _ _ hp h => hp.calm h
  have hcopied : CalmStable fun _ p => Loaded c p ∧ p.outBuffer = some c :=
    fun _ _ _ hp h => ⟨hp.1.calm h, h.outBuffer.trans hp.2⟩
  unfold usbSendCmd
  apply (sat_on hloaded hloaded (fun brk p hp hordered => ?_) hs).seq hinv
  · intro _ t ht hat
    apply (sat_on hloaded hcopied (fun brk p hp hordered => ?_) hat).seq ht
    · intro _ u hu hat'
      refine sat_atomically_on (g := (·.runs true)) (Q := fun _ _ => Settled) hcopied
        (fun _ => settled_stable) (fun brk p hp hordered => ?_) hat'
      refine ⟨hordered.uhdEpRun hp.1.head hp.2 true, ?_⟩
      unfold OutPipe.uhdEpRun
      split
      · exact ⟨hp.1.bufLock, rfl, fun _ => rfl⟩
      · next hruns =>
          refine ⟨hp.1.bufLock, rfl, fun _ => ?_⟩
          simpa [runs, Option.isSome_iff_ne_none] using hruns
    · exact ⟨hordered.copyOut hp.head, ⟨hp.bufLock, hp.head, hp.fixed⟩, rfl⟩
  · exact ⟨hordered.frame (Nat.le_refl _) rfl, hp.bufLock, hp.head, hp.fixed⟩

/-- A new command enters the list; if it is the only one it is sent at once. -/
theorem sat_usbWriteReg {c : Chunk} {env : Env}
    (henv : c.len ≤ intrEndpointMaxSize → env.accepts = true)
    (hs : At .intOut (fun brk p => Settled p ∧ Fresh c brk p ∧
      (c.len ≤ intrEndpointMaxSize → HasRoom p)) s) (hinv : (pipeRely .intOut J).inv s) :
    Sat (pipeRely .intOut J) (usbWriteReg c env)
      (fun _ t => At .intOut (fun _ => Settled) t) s := by
  have hstable : CalmStable fun brk p => Settled p ∧ Fresh c brk p ∧
      (c.len ≤ intrEndpointMaxSize → HasRoom p) :=
    fun _ _ _ hp h => ⟨hp.1.calm h, hp.2.1.calm h, fun hlen => (hp.2.2 hlen).calm h⟩
  unfold usbWriteReg
  by_cases hlen : intrEndpointMaxSize < c.len
  · rw [if_pos hlen]
    intro t hst _
    exact ⟨(hs.stable hstable hst).1, (hs.stable hstable hst).2.1⟩
  rw [if_neg hlen]
  have hle : c.len ≤ intrEndpointMaxSize := Nat.le_of_not_lt hlen
  apply (sat_on (K := Writing c false) hstable (writing_stable c false)
    (fun brk p hp hordered => ?_) hs).seq hinv
  · intro _ t ht hat
    have hfound : CalmStable fun brk p => Writing c true brk p ∧ p.head.isSome = true := by
      intro brk p q hp h
      refine ⟨writing_stable c true brk p q hp.1 h, ?_⟩
      rw [h.head (.inr hp.1.held)]
      exact hp.2
    have hempty : CalmStable fun brk p =>
        Writing c false brk p ∧ p.head = none ∧ p.transfer = none := by
      intro brk p q hp h
      have hfixed : p.Fixed := .inl hp.2.2
      exact ⟨writing_stable c false brk p q hp.1 h, (h.head hfixed).trans hp.2.1,
        (h.fixed hfixed).2.trans hp.2.2⟩
    apply (sat_atomically_on (g := OutPipe.head) (f := hold) (Q := fun head brk p =>
      head.elim (Writing c false brk p ∧ p.head = none ∧ p.transfer = none) fun _ =>
        Writing c true brk p ∧ p.head.isSome = true)
      (writing_stable c false) ?_ ?_ hat).seq ht
    · intro head u hu hatu
      cases head with
      | some d =>
          exact sat_appendTail (fun n hn => decide_eq_false (Nat.not_lt.mpr hn)) hatu hu
      | none =>
          refine Sat.read_bind fun v huv hv => ?_
          have hatv := hatu.stable hempty huv
          obtain ⟨a, hlist⟩ := hv.1.list_of_head_none hatv.2.2.1
          have hnext : v.cmd.hasNext = false := by
            have hlist' : v.cmd.list = [⟨a, none⟩] := hlist
            simp [hasNext, hlist']
          simp only [hnext, Bool.false_eq_true, if_false]
          have hstored : CalmStable fun _ p => p.head = some c ∧ p.transfer = none ∧
              p.bufLock = true := by
            intro brk p q hp h
            have hfixed : p.Fixed := .inl hp.2.1
            exact ⟨(h.head hfixed).trans hp.1, (h.fixed hfixed).2.trans hp.2.1,
              h.bufLock.trans hp.2.2⟩
          apply (sat_on hempty hstored (fun brk p hp hordered => ?_) hatv).seq hv
          · intro _ w hw hatw
            have hloaded : CalmStable fun _ => Loaded c := fun _ _ _ hp h => hp.calm h
            apply (sat_on hstored hloaded (fun brk p hp hordered => ?_) hatw).seq hw
            · intro _ x hx hatx
              rw [henv hle]
              exact sat_usbSendCmd hatx hx
            · exact ⟨hordered.frame (Nat.le_refl _) rfl, rfl, hp.1, .inl hp.2.1⟩
          · obtain ⟨hordered', hhead⟩ :=
              hordered.storeHead hp.2.1 hp.1.fresh.1 hp.1.fresh.2
            obtain ⟨b, hb⟩ := hordered.list_of_head_none hp.2.1
            refine ⟨hordered', hhead, ?_, ?_⟩
            · simpa [OutPipe.storeHead, hb] using hp.2.2
            · simpa [OutPipe.storeHead, hb] using hp.1.bufLock
    · intro head
      cases head with
      | some d => exact hfound
      | none => exact hempty
    · intro brk p hp hordered
      unfold hold
      cases hhead : p.head with
      | none =>
          exact ⟨hordered, hp, hhead, hordered.transfer_eq_none hhead⟩
      | some d =>
          refine ⟨hordered.frame (Nat.le_refl _) rfl, ?_, ?_⟩
          · exact ⟨hp.bufLock, rfl, hp.asyncLock, hp.fresh, hp.room⟩
          · have hhead' : ({ p with held := true } : OutPipe).head = p.head := rfl
            simp [hhead', hhead]
  · exact ⟨hordered.frame (Nat.le_refl _) rfl, rfl, hp.1.held, hp.1.asyncLock, hp.2.1, hp.2.2 hle⟩

/-- The flush submits the head again only if its transfer is not under way. -/
theorem sat_schAsyncCmdCheck (hs : At .intOut (fun _ => Settled) s) :
    Sat (pipeRely .intOut J) (schAsyncCmdCheck true)
      (fun _ t => At .intOut (fun _ => Settled) t) s := by
  have done {u : State} (hu : At .intOut (fun _ => Settled) u) :
      Sat (pipeRely .intOut J) (pure ()) (fun _ t => At .intOut (fun _ => Settled) t) u :=
    fun v huv _ => hu.stable settled_stable huv
  unfold schAsyncCmdCheck
  refine Sat.read_bind fun t hst ht => ?_
  have hatt := hs.stable settled_stable hst
  split
  · refine Sat.read_bind fun u htu hu => ?_
    have hatu := hatt.stable settled_stable htu
    split
    · exact done hatu
    · have hloaded (c : Chunk) : CalmStable fun _ p => Loaded c p ∧ p.held = true :=
        fun _ _ _ hp h => ⟨hp.1.calm h, h.held.trans hp.2⟩
      apply (sat_atomically_on (g := OutPipe.head) (f := hold) (Q := fun head _ p =>
        head.elim (Settled p) fun c => Loaded c p ∧ p.held = true) settled_stable ?_ ?_ hatu).seq hu
      · intro head v hv hatv
        cases head with
        | none => exact done hatv
        | some c =>
            refine Sat.read_bind fun w hvw hw => ?_
            have hatw := hatv.stable (hloaded c) hvw
            have hhead : w.cmd.head = some c := hatw.2.1.head
            rw [hhead]
            have hatw' : At .intOut (fun _ => Loaded c) w := ⟨hatw.1, hatw.2.1⟩
            apply (sat_usbSendCmd hatw' hw).seq hw
            intro _ x _ hatx
            exact done hatx
      · intro head
        cases head with
        | some c => exact hloaded c
        | none => exact settled_stable
      · intro brk p hp hordered
        unfold hold
        cases hhead : p.head with
        | none => exact ⟨hordered, hp⟩
        | some c =>
            exact ⟨hordered.frame (Nat.le_refl _) rfl, ⟨hp.bufLock, hhead, .inr rfl⟩, rfl⟩
  · exact done hatt

/-- The block of a new command, if there is memory for it. -/
theorem sat_cmdBuf {P : OutPipe → Prop} {len : Nat} {slot : Option (Option Nat × Nat)}
    {ok : Bool} (hP : CalmStable fun _ => P) (hs : At e (fun _ => P) s) :
    Sat (pipeRely e J) (cmdBuf len slot ok)
      (fun buf t => At e (fun brk p => P p ∧ ∀ c, buf = some c →
        ok = true ∧ c.len = len + ar9170CmdHdrLen ∧ Fresh c brk p) t) s := by
  have hstable (buf : Option Chunk) : CalmStable fun brk p => P p ∧ ∀ c, buf = some c →
      ok = true ∧ c.len = len + ar9170CmdHdrLen ∧ Fresh c brk p := by
    intro brk p q hp h
    refine ⟨hP brk p q hp.1 h, fun c hc => ?_⟩
    obtain ⟨hok, hlen, hfresh⟩ := hp.2 c hc
    exact ⟨hok, hlen, hfresh.calm h⟩
  unfold cmdBuf
  cases ok with
  | false =>
      rw [if_neg Bool.false_ne_true]
      intro t hst _
      obtain ⟨hw, hPt⟩ := hs.stable hP hst
      exact ⟨hw, hPt, fun c hc => by cases hc⟩
  | true =>
      rw [if_pos rfl]
      intro t hst ht
      obtain ⟨hw, hPt⟩ := hs.stable hP hst
      have hfresh : Fresh ⟨t.brk, len + ar9170CmdHdrLen⟩ (t.brk + 1) (t.pipe e) :=
        ⟨Nat.lt_succ_self _, fun d hd => Nat.ne_of_lt (ht.1.buffer_lt d hd)⟩
      have hordered : (t.pipe e).Ordered (t.brk + 1) := ht.1.frame (Nat.le_succ _) rfl
      have allocated {u : State} (hpipe : u.pipe e = t.pipe e) (hbrk : u.brk = t.brk + 1)
          (hwu : u.waiting = none) : (pipeRely e J).inv u ∧ ∀ v, (pipeRely e J).rel u v →
            (pipeRely e J).inv v → At e (fun brk p => P p ∧ ∀ c,
              some (⟨t.brk, len + ar9170CmdHdrLen⟩ : Chunk) = some c →
                true = true ∧ c.len = len + ar9170CmdHdrLen ∧ Fresh c brk p) v := by
        refine ⟨⟨by rw [hpipe, hbrk]; exact hordered, fun h => by rw [hwu] at h; cases h⟩, ?_⟩
        intro v huv _
        apply At.stable (hstable _) _ huv
        refine ⟨hwu, ?_⟩
        rw [hpipe, hbrk]
        refine ⟨hPt, fun c hc => ?_⟩
        cases hc
        exact ⟨rfl, rfl, hfresh⟩
      cases slot with
      | none => exact allocated (by cases e <;> rfl) rfl hw
      | some slot => exact allocated (by cases e <;> rfl) rfl hw

/-- What a command of `len` bytes needs of the list and of the endpoint. -/
def CanQueue (len : Nat) (env : Env) (p : OutPipe) : Prop :=
  env.bufferOk = true → len + ar9170CmdHdrLen ≤ intrEndpointMaxSize →
    env.accepts = true ∧ HasRoom p

instance (len : Nat) (env : Env) (p : OutPipe) : Decidable (CanQueue len env p) := by
  unfold CanQueue HasRoom
  infer_instance

theorem CanQueue.calm {len : Nat} {env : Env} (hp : CanQueue len env p) (h : Calm p q) :
    CanQueue len env q :=
  fun hok hlen => ⟨(hp hok hlen).1, (hp hok hlen).2.calm h⟩

theorem canQueue_stable (len : Nat) (env : Env) :
    CalmStable fun _ p => Settled p ∧ CanQueue len env p :=
  fun _ _ _ hp h => ⟨hp.1.calm h, hp.2.calm h⟩

theorem sat_submitCmd {len : Nat} {slot : Option (Option Nat × Nat)} {env : Env}
    (hinv : (pipeRely .intOut J).inv s)
    (hs : At .intOut (fun _ p => Settled p ∧ CanQueue len env p) s) :
    Sat (pipeRely .intOut J) (submitCmd len slot env)
      (fun _ t => At .intOut (fun _ => Settled) t) s := by
  unfold submitCmd
  apply (sat_cmdBuf (canQueue_stable len env) hs).seq hinv
  intro buf t ht hat
  cases buf with
  | none =>
      intro u htu _
      have hsettled : At .intOut (fun _ => Settled) t := ⟨hat.1, hat.2.1.1⟩
      exact hsettled.stable settled_stable htu
  | some c =>
      obtain ⟨hok, hlen, hfresh⟩ := hat.2.2 c rfl
      have hqueue : c.len ≤ intrEndpointMaxSize →
          env.accepts = true ∧ HasRoom (t.pipe .intOut) := by
        rw [hlen]
        exact hat.2.1.2 hok
      exact sat_usbWriteReg (fun h => (hqueue h).1)
        ⟨hat.1, hat.2.1.1, hfresh, fun h => (hqueue h).2⟩ ht

/-! ### Whole runs -/

/-- The steps under which commands are delivered: the callbacks find a transfer
that ended well and a main loop that does not rely on the list, the endpoint
takes what is submitted while it is idle, and the list has room. -/
def deliveryGuard : Guard State Irq Call where
  irq := completesWell .intOut
  call
    | .exec _ plen _ _ env, s => CanQueue (plen % 256) env s.cmd
    | .submit len env, s => CanQueue len env s.cmd
    | .flush accepts, _ => accepts = true
    | .tx _ _ _ _, _ => True

instance (s : State) (l : Label Irq Call) : Decidable (deliveryGuard.admits s l) :=
  match l with
  | .irq i => inferInstanceAs (Decidable (completesWell .intOut i s))
  | .main => .isTrue trivial
  | .call (.exec _ plen _ _ env) => inferInstanceAs (Decidable (CanQueue (plen % 256) env s.cmd))
  | .call (.submit len env) => inferInstanceAs (Decidable (CanQueue len env s.cmd))
  | .call (.flush accepts) => inferInstanceAs (Decidable (accepts = true))
  | .call (.tx _ _ _ _) => .isTrue trivial

theorem sat_body_delivery {k : Call} (hinv : (pipeRely .intOut Settled).inv s)
    (hs : At .intOut (fun _ => Settled) s) (hk : deliveryGuard.call k s) :
    Sat (pipeRely .intOut Settled) (body k) (fun _ t => At .intOut (fun _ => Settled) t) s := by
  have done (u : State) (hu : At .intOut (fun _ => Settled) u) :
      Sat (pipeRely .intOut Settled) (pure ()) (fun _ t => At .intOut (fun _ => Settled) t) u :=
    fun v huv _ => hu.stable settled_stable huv
  have hJ : ∀ p q, Settled p → Calm p q → Settled q := fun _ _ hp h => hp.calm h
  cases k with
  | exec cmd plen out outlen env =>
      have hready : At .intOut (fun _ p => Settled p ∧ CanQueue (plen % 256) env p) s :=
        ⟨hs.1, hs.2, hk⟩
      apply (sat_execCmd (P := fun _ p => Settled p ∧ CanQueue (plen % 256) env p) hJ
        (canQueue_stable _ env) (fun t ht hat => sat_submitCmd ht hat) hinv hready).seq hinv
      exact fun _ t _ hat => done t hat
  | submit len env =>
      have hready : At .intOut (fun _ p => Settled p ∧ CanQueue len env p) s := ⟨hs.1, hs.2, hk⟩
      apply (sat_submitCmd hinv hready).seq hinv
      exact fun _ t _ hat => done t hat
  | flush accepts =>
      have haccepts : accepts = true := hk
      rw [haccepts]
      exact sat_schAsyncCmdCheck hs
  | tx len started hasData env =>
      exact sat_elsewhere ((Elsewhere.pipeActs (by decide)).usbTx len started hasData env)
        settled_stable (fun _ _ _ _ h => h) hs

/-- The flush of an idle endpoint submits the head. -/
theorem eval_schAsyncCmdCheck {c : Chunk} (hhead : s.cmd.head = some c)
    (hlock : s.cmd.asyncLock = false) (ht : s.cmd.transfer = none) :
    ((schAsyncCmdCheck true).eval s).2.cmd.submitted = s.cmd.submitted ++ [some c] := by
  have hhold : s.cmd.hold = { s.cmd with held := true } := by simp [hold, hhead]
  simp [schAsyncCmdCheck, usbSendCmd, hhead, hlock, State.on, hhold, startAsync, copyOut,
    OutPipe.uhdEpRun, runs, ht]
  exact hhead

/-- In every state of a run the commands are delivered in order, no lock is set
without a transfer once the running call has returned or waits, and the flush
takes up what is left. -/
theorem delivered_of_run {cmdBufs : Nat} {ls : List (Label Irq Call)} {c : Config State}
    (h : machine.Run deliveryGuard (.idle (.init cmdBufs)) ls c) :
    c.state.cmd.delivered ∧
      (c.rest = .ret () ∨ c.state.waiting.isSome = true →
        c.state.cmd.bufLock = false ∧
          (c.state.cmd.asyncLock = true → c.state.cmd.transfer.isSome = true)) ∧
      (c.rest = .ret () → c.state.cmd.transfer = none → ∀ x, c.state.cmd.head = some x →
        ((schAsyncCmdCheck true).eval c.state).2.cmd.submitted =
          c.state.cmd.submitted ++ [some x]) := by
  have hinit : Settled ((State.init cmdBufs).pipe .intOut) := ⟨rfl, rfl, fun h => by cases h⟩
  obtain ⟨hordered, hsettled⟩ := pipe_of_run (e := .intOut) (fun _ _ hp h => hp.calm h)
    (fun _ _ hG => hG) (fun k s hinv hs hk => sat_body_delivery hinv hs hk) hinit h
  refine ⟨hordered.delivered, fun hc => ⟨(hsettled hc).bufLock, (hsettled hc).asyncLock⟩, ?_⟩
  intro hrest ht x hx
  have hlock : c.state.cmd.asyncLock = false := by
    by_contra hset
    have hset' : c.state.cmd.asyncLock = true := by simpa using hset
    have hsome := (hsettled (.inl hrest)).asyncLock hset'
    have ht' : (c.state.pipe .intOut).transfer = none := ht
    rw [ht'] at hsome
    cases hsome
  exact eval_schAsyncCmdCheck hx hlock ht

/-- One command is sent, a second one waits for it and is taken up by the flush. -/
def twoCommands : List (Label Irq Call) :=
  callFor (.submit 16 ⟨true, true, true⟩) 9 ++ callFor (.submit 12 ⟨true, true, true⟩) 7 ++
    [.irq (.intOutDone .noError)] ++ callFor (.flush true) 7 ++ [.irq (.intOutDone .noError)]

theorem delivered_of_run_twoCommands :
    ∃ c, machine.Run deliveryGuard (.idle (.init 4)) twoCommands c ∧ c.state.cmd.delivered ∧
      c.state.cmd.accepted.length = 2 ∧ c.state.cmd.freed = c.state.cmd.accepted := by
  obtain ⟨c, hrun, hc⟩ := machine.exists_run_of_exec deliveryGuard (.idle (.init 4)) twoCommands
    (fun s => s.cmd.accepted.length = 2 ∧ s.cmd.freed = s.cmd.accepted) (by decide) (by decide)
  exact ⟨c, hrun, (delivered_of_run hrun).1, hc⟩

/-- The first transfer times out, so its command stays at the head and the lock
stays set until the second pre-TBTT; then the flush sends the command again. -/
def timedOut : List (Label Irq Call) :=
  callFor (.submit 16 ⟨true, true, true⟩) 9 ++
    [.irq (.intOutDone .timeout), .irq (.response ⟨0, rspPreTbtt, 4, 8, 0⟩),
      .irq (.response ⟨1, rspPreTbtt, 4, 8, 0⟩)] ++
    callFor (.flush true) 7

theorem not_delivered_timedOut :
    ∃ c, machine.Run Guard.any (.idle (.init 4)) timedOut c ∧ ¬c.state.cmd.delivered ∧
      c.state.cmd.accepted = [⟨2, 20⟩] ∧
      c.state.cmd.submitted = [some ⟨2, 20⟩, some ⟨2, 20⟩] := by
  obtain ⟨c, hrun, hc⟩ := machine.exists_run_of_exec Guard.any (.idle (.init 4)) timedOut
    (fun s => ¬s.cmd.delivered ∧ s.cmd.accepted = [⟨2, 20⟩] ∧
      s.cmd.submitted = [some ⟨2, 20⟩, some ⟨2, 20⟩]) (by decide) (by decide)
  exact ⟨c, hrun, hc⟩

end Calipso.Ar9170.Usb
