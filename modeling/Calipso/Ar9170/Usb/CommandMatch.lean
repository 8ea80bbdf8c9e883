import Calipso.Ar9170.Usb.BulkQueue

/-!
# Matching of commands and responses

One slot (`readbuf`, `readlen`) and one flag serve all synchronous commands, and
`ar9170_cmd_callback` copies what it gets. So the copy is right exactly when the
response answers the command of the slot and fits, and `ar9170_exec_cmd` comes
back from its wait only if its command was submitted.
-/

namespace Calipso.Ar9170.Usb

open Interrupt OutPipe

/-- The slot belongs to its command, every copy went to the buffer of the
command it answers, and no call waits for a command that was not submitted. -/
structure MatchInv (s : State) : Prop where
  slot : ∀ b, s.slotCmd = some b →
    ∃ r ∈ s.supplied, r.cmd = b ∧ r.out = s.readbuf ∧ r.outlen = s.readlen
  stores : ∀ st ∈ s.stores, st.count ≤ st.readlen ∧
    ∃ r ∈ s.supplied, r.cmd = st.answers ∧ r.out = some st.buf
  lt : ∀ r ∈ s.supplied, r.cmd < s.brk
  distinct : (s.supplied.map (·.cmd)).Nodup
  waiting : s.waiting ≠ some false

/-- The nodes of the list have addresses of their own, and only the first one
may be without a chunk. -/
structure WellLinked (brk : Nat) (p : OutPipe) : Prop where
  nodup : (p.list.map (·.addr)).Nodup
  addr_lt : ∀ n ∈ p.list, n.addr < brk
  tail : ∀ n ∈ p.list.tail, n.chunk.isSome = true

/-- A command put into the list now is sent or stored: an empty list has no node
behind its head and no transfer, and the list has room. -/
structure CanTake (p : OutPipe) : Prop where
  nonempty : p.list ≠ []
  idle : p.head = none → p.list.tail = [] ∧ p.transfer = none
  room : HasRoom p

/-- What the interrupts may do to the pipe, well or badly. -/
structure Gentle (p q : OutPipe) : Prop where
  held : q.held = p.held
  fixed : p.Fixed → q.list = p.list ∧ q.transfer = p.transfer
  canTake : CanTake p → CanTake q

/-- A response that `ar9170_cmd_callback` copies to `readbuf`. -/
def Rsp.stored (r : Rsp) (s : State) : Bool :=
  (checkSequence r.seq s).isSome && r.isSync && s.readbuf.isSome &&
    decide (ar9170CmdHdrLen ≤ r.len)

variable {e : Endpoint} {brk : Nat} {p q r : OutPipe} {s t : State}

theorem Gentle.isFixed (h : Gentle p q) (hp : p.Fixed) : q.Fixed := by
  rcases hp with ht | hh
  · left
    rw [(h.fixed (.inl ht)).2]
    exact ht
  · right
    rw [h.held]
    exact hh

theorem Gentle.refl (p : OutPipe) : Gentle p p :=
  ⟨rfl, fun _ => ⟨rfl, rfl⟩, id⟩

theorem Gentle.trans (h : Gentle p q) (h' : Gentle q r) : Gentle p r where
  held := h'.held.trans h.held
  fixed hp := by
    obtain ⟨hl, ht⟩ := h.fixed hp
    obtain ⟨hl', ht'⟩ := h'.fixed (h.isFixed hp)
    exact ⟨hl'.trans hl, ht'.trans ht⟩
  canTake := h'.canTake ∘ h.canTake

theorem Gentle.head (h : Gentle p q) (hp : p.Fixed) : q.head = p.head := by
  unfold OutPipe.head
  rw [(h.fixed hp).1]

/-- The slot is the main loop's own. -/
def matchRely : Rely State where
  inv s := MatchInv s ∧ WellLinked s.brk s.cmd
  rel s t := Gentle s.cmd t.cmd ∧ t.brk = s.brk ∧ t.waiting = s.waiting ∧
    t.slotCmd = s.slotCmd ∧ t.readbuf = s.readbuf ∧ t.readlen = s.readlen ∧
    t.supplied = s.supplied
  refl _ := ⟨.refl _, rfl, rfl, rfl, rfl, rfl, rfl⟩
  trans h h' := by
    obtain ⟨hg, hb, hw, hs, hr, hl, hp⟩ := h
    obtain ⟨hg', hb', hw', hs', hr', hl', hp'⟩ := h'
    exact ⟨hg.trans hg', hb'.trans hb, hw'.trans hw, hs'.trans hs, hr'.trans hr, hl'.trans hl,
      hp'.trans hp⟩

/-! ### Interrupts -/

/-- A response leaves the slot alone and adds at most its own copy. -/
theorem handleCommandResponse_slot (r : Rsp) (s : State) :
    (handleCommandResponse r s).slotCmd = s.slotCmd ∧
      (handleCommandResponse r s).readbuf = s.readbuf ∧
      (handleCommandResponse r s).readlen = s.readlen ∧
      (handleCommandResponse r s).supplied = s.supplied ∧
      ((handleCommandResponse r s).stores = s.stores ∨
        r.stored s = true ∧ ∃ b, s.readbuf = some b ∧
          (handleCommandResponse r s).stores =
            s.stores ++ [⟨r.answers, b, r.len - ar9170CmdHdrLen, s.readlen⟩]) := by
  unfold handleCommandResponse
  cases hseq : checkSequence r.seq s with
  | none => exact ⟨rfl, rfl, rfl, rfl, .inl rfl⟩
  | some u =>
      obtain ⟨hslot, hbuf, hlen, hsupplied, hstores⟩ :
          u.slotCmd = s.slotCmd ∧ u.readbuf = s.readbuf ∧ u.readlen = s.readlen ∧
            u.supplied = s.supplied ∧ u.stores = s.stores := by
        unfold checkSequence at hseq
        split at hseq
        · cases hseq
          exact ⟨rfl, rfl, rfl, rfl, rfl⟩
        · simp only [Option.ite_none_right_eq_some, Option.some.injEq] at hseq
          rw [← hseq.2]
          exact ⟨rfl, rfl, rfl, rfl, rfl⟩
      simp only
      split
      next hrsp =>
        split
        next hasync =>
          unfold cmdCallback
          cases hb : u.readbuf with
          | none => exact ⟨hslot, hb.symm.trans hbuf, hlen, hsupplied, .inl hstores⟩
          | some b =>
              have hb' : s.readbuf = some b := hbuf.symm.trans hb
              simp only
              split
              next hle =>
                have hstored : r.stored s = true := by
                  simp [Rsp.stored, hseq, Rsp.isSync, hrsp, hasync, hb', hle]
                refine ⟨hslot, hb'.symm, hlen, hsupplied, .inr ⟨hstored, b, hb', ?_⟩⟩
                simp [hstores, hlen]
              next => exact ⟨hslot, hb'.symm, hlen, hsupplied, .inl hstores⟩
        next => exact ⟨hslot, hbuf, hlen, hsupplied, .inl hstores⟩
      next =>
        split
        · exact ⟨hslot, hbuf, hlen, hsupplied, .inl hstores⟩
        · split
          · exact ⟨hslot, hbuf, hlen, hsupplied, .inl hstores⟩
          · split
            · unfold handleTxComp
              split
              · simp only
                split <;> exact ⟨hslot, hbuf, hlen, hsupplied, .inl hstores⟩
              · exact ⟨hslot, hbuf, hlen, hsupplied, .inl hstores⟩
            · exact ⟨hslot, hbuf, hlen, hsupplied, .inl hstores⟩

/-- Only the locks change. -/
theorem WellLinked.of_list (h : WellLinked brk p) (hq : q.list = p.list) : WellLinked brk q := by
  constructor
  · rw [hq]
    exact h.nodup
  · rw [hq]
    exact h.addr_lt
  · rw [hq]
    exact h.tail

theorem Gentle.of_list (hlist : q.list = p.list) (ht : q.transfer = p.transfer)
    (hheld : q.held = p.held) : Gentle p q := by
  refine ⟨hheld, fun _ => ⟨hlist, ht⟩, fun hp => ?_⟩
  have hhead : q.head = p.head := by rw [OutPipe.head, hlist, OutPipe.head]
  constructor
  · rw [hlist]
    exact hp.nonempty
  · rw [hhead, hlist, ht]
    exact hp.idle
  · rw [HasRoom, hlist]
    exact hp.room

theorem WellLinked.freeHead (h : WellLinked brk p) : WellLinked brk p.freeHead := by
  unfold OutPipe.freeHead
  cases hlist : p.list with
  | nil => simpa using h
  | cons n rest =>
      obtain ⟨a, c⟩ := n
      cases c with
      | none => simpa using h
      | some c =>
          have hnodup := h.nodup
          have hlt := h.addr_lt
          rw [hlist] at hnodup hlt
          by_cases hrest : rest = []
          · subst hrest
            constructor
            · simp
            · simpa using hlt
            · simp
          · rw [List.map_cons, List.nodup_cons] at hnodup
            constructor
            · simpa [hrest] using hnodup.2
            · simpa [hrest] using fun n hn => hlt n (List.mem_cons_of_mem _ hn)
            · intro n hn
              have htail := h.tail n
              rw [hlist] at htail
              simp only [if_neg hrest] at hn
              exact htail (List.mem_of_mem_tail hn)

/-- The end of a transfer, whatever its status, while nothing is held. -/
theorem gentle_interruptOutTransferDone (h : WellLinked brk p) (ht : p.transfer.isSome = true)
    (hheld : p.held = false) (status : UhdTransStatus) :
    Gentle p (interruptOutTransferDone status (p.endTransfer status)) ∧
      WellLinked brk (interruptOutTransferDone status (p.endTransfer status)) := by
  have hended : WellLinked brk (p.endTransfer status) := h.of_list rfl
  have hnotFixed : ¬p.Fixed := by
    rintro (hnone | hh)
    · rw [hnone] at ht
      cases ht
    · rw [hheld] at hh
      cases hh
  unfold interruptOutTransferDone
  split
  · refine ⟨⟨?_, fun hp => absurd hp hnotFixed, fun hp => ?_⟩, hended.freeHead.of_list rfl⟩
    · exact (freeHead_fields (p.endTransfer status)).2.2.2.1
    · have htransfer : (p.endTransfer status).freeHead.transfer = none :=
        (freeHead_fields (p.endTransfer status)).2.2.2.2.2.2
      obtain ⟨n, rest, hlist⟩ := List.exists_cons_of_ne_nil hp.nonempty
      have hlist' : (p.endTransfer status).list = n :: rest := hlist
      have hroom : (p.endTransfer status).freeHead.list.length ≤ ar9170MaxCmdBufferLen + 1 :=
        Nat.le_trans (freeHead_length _) hp.room
      obtain ⟨a, c⟩ := n
      cases c with
      | none =>
          have hfree : (p.endTransfer status).freeHead = p.endTransfer status := by
            simp [OutPipe.freeHead, hlist']
          rw [hfree] at hroom
          constructor
          · simp [completeAsync, hfree, hlist']
          · intro _
            have hhead : p.head = none := by simp [OutPipe.head, hlist]
            rw [(hp.idle hhead).2] at ht
            cases ht
          · rw [hfree]
            exact hroom
      | some c =>
          by_cases hrest : rest = []
          · subst hrest
            constructor
            · simp [completeAsync, OutPipe.freeHead, hlist']
            · intro _
              exact ⟨by simp [completeAsync, OutPipe.freeHead, hlist'], htransfer⟩
            · exact hroom
          · obtain ⟨m, rest', rfl⟩ := List.exists_cons_of_ne_nil hrest
            have hm : m.chunk.isSome = true := h.tail m (by simp [hlist])
            constructor
            · simp [completeAsync, OutPipe.freeHead, hlist']
            · intro hhead
              have hnone : m.chunk = none := by
                simpa [completeAsync, OutPipe.freeHead, hlist', OutPipe.head] using hhead
              simp [hnone] at hm
            · exact hroom
  · refine ⟨⟨rfl, fun hp => absurd hp hnotFixed, fun hp => ?_⟩, hended⟩
    exact ⟨hp.nonempty, fun hhead => ⟨(hp.idle hhead).1, rfl⟩, hp.room⟩

/-- The interrupts are admitted unless a callback strikes while the main loop
relies on the list, or a copied response answers another command or is too
long. -/
def matchIrq : Irq → State → Prop
  | .intOutDone _, s => s.cmd.held = false
  | .bulkOutDone _, _ => True
  | .response r, s => r.stored s = true →
      s.slotCmd = some r.answers ∧ r.len - ar9170CmdHdrLen ≤ s.readlen

instance (i : Irq) (s : State) : Decidable (matchIrq i s) :=
  match i with
  | .intOutDone _ => inferInstanceAs (Decidable (s.cmd.held = false))
  | .bulkOutDone _ => .isTrue trivial
  | .response r => inferInstanceAs (Decidable (r.stored s = true →
      s.slotCmd = some r.answers ∧ r.len - ar9170CmdHdrLen ≤ s.readlen))

theorem MatchInv.of_eq (h : MatchInv s) (hslot : t.slotCmd = s.slotCmd)
    (hbuf : t.readbuf = s.readbuf) (hlen : t.readlen = s.readlen)
    (hsupplied : t.supplied = s.supplied) (hstores : t.stores = s.stores)
    (hbrk : s.brk ≤ t.brk) (hw : t.waiting = s.waiting) : MatchInv t := by
  constructor
  · rw [hslot, hsupplied, hbuf, hlen]
    exact h.slot
  · rw [hstores, hsupplied]
    exact h.stores
  · rw [hsupplied]
    exact fun r hr => Nat.lt_of_lt_of_le (h.lt r hr) hbrk
  · rw [hsupplied]
    exact h.distinct
  · rw [hw]
    exact h.waiting

theorem irq_match {i : Irq} {s' : State} (hs : matchRely.inv s) (hi : matchIrq i s)
    (h : irq i s = some s') : matchRely.inv s' ∧ matchRely.rel s s' := by
  obtain ⟨hmatch, hlinked⟩ := hs
  cases i with
  | intOutDone status =>
      simp only [irq, Option.ite_none_right_eq_some, Option.some.injEq] at h
      obtain ⟨ht, rfl⟩ := h
      obtain ⟨hgentle, hlinked'⟩ := gentle_interruptOutTransferDone hlinked ht hi status
      exact ⟨⟨hmatch.of_eq rfl rfl rfl rfl rfl (Nat.le_refl _) rfl, hlinked'⟩,
        hgentle, rfl, rfl, rfl, rfl, rfl, rfl⟩
  | bulkOutDone status =>
      simp only [irq, Option.ite_none_right_eq_some, Option.some.injEq] at h
      obtain ⟨-, rfl⟩ := h
      exact ⟨⟨hmatch.of_eq rfl rfl rfl rfl rfl (Nat.le_refl _) rfl, hlinked⟩,
        .refl _, rfl, rfl, rfl, rfl, rfl, rfl⟩
  | response r =>
      simp only [irq, Option.ite_none_right_eq_some, Option.some.injEq] at h
      obtain ⟨-, rfl⟩ := h
      obtain ⟨hslot, hbuf, hlen, hsupplied, hstores⟩ := handleCommandResponse_slot r s
      obtain ⟨hcalm, hledger, hbrk, hw⟩ := handleCommandResponse_pipe r s .intOut
      have hlist : (handleCommandResponse r s).cmd.list = s.cmd.list :=
        congrArg Prod.fst hledger
      have htransfer : (handleCommandResponse r s).cmd.transfer = s.cmd.transfer :=
        congrArg (·.2.1) hledger
      refine ⟨⟨?_, ?_⟩, .of_list hlist htransfer hcalm.held, hbrk, hw, hslot, hbuf, hlen,
        hsupplied⟩
      · rcases hstores with hstores | ⟨hstored, b, hb, hstores⟩
        · exact hmatch.of_eq hslot hbuf hlen hsupplied hstores (Nat.le_of_eq hbrk.symm) hw
        · obtain ⟨hanswers, hfits⟩ := hi hstored
          constructor
          · rw [hslot, hsupplied, hbuf, hlen]
            exact hmatch.slot
          · rw [hstores, hsupplied]
            intro st hst
            rcases List.mem_append.mp hst with hst | hst
            · exact hmatch.stores st hst
            · rw [List.mem_singleton] at hst
              obtain ⟨x, hx, hcmd, hout, -⟩ := hmatch.slot _ hanswers
              rw [hst]
              exact ⟨hfits, x, hx, hcmd, hout.trans hb⟩
          · rw [hsupplied, hbrk]
            exact hmatch.lt
          · rw [hsupplied]
            exact hmatch.distinct
          · rw [hw]
            exact hmatch.waiting
      · rw [hbrk]
        exact hlinked.of_list hlist

/-! ### Actions that leave the slot alone -/

/-- The action keeps the list well linked and the slot as it is. -/
structure KeepsSlot (f : State → State) : Prop where
  linked : ∀ s, WellLinked s.brk s.cmd → WellLinked (f s).brk (f s).cmd
  slot : ∀ s, (f s).slotCmd = s.slotCmd ∧ (f s).readbuf = s.readbuf ∧
    (f s).readlen = s.readlen ∧ (f s).supplied = s.supplied ∧ (f s).stores = s.stores ∧
    s.brk ≤ (f s).brk ∧ (f s).waiting = s.waiting

theorem KeepsSlot.inv {f : State → State} (hf : KeepsSlot f) (hs : matchRely.inv s) :
    matchRely.inv (f s) := by
  obtain ⟨hslot, hbuf, hlen, hsupplied, hstores, hbrk, hw⟩ := hf.slot s
  exact ⟨hs.1.of_eq hslot hbuf hlen hsupplied hstores hbrk hw, hf.linked s hs.2⟩

theorem KeepsSlot.refl : KeepsSlot id :=
  ⟨fun _ h => h, fun _ => ⟨rfl, rfl, rfl, rfl, rfl, Nat.le_refl _, rfl⟩⟩

theorem KeepsSlot.on {f : OutPipe → OutPipe}
    (hf : ∀ brk p, WellLinked brk p → WellLinked brk (f p)) : KeepsSlot (·.on e f) := by
  constructor
  · intro s hs
    cases e with
    | intOut => exact hf s.brk s.cmd hs
    | bulkOut => exact hs
  · intro s
    cases e <;> exact ⟨rfl, rfl, rfl, rfl, rfl, Nat.le_refl _, rfl⟩

theorem KeepsSlot.on_of_list {f : OutPipe → OutPipe} (hf : ∀ p, (f p).list = p.list) :
    KeepsSlot (·.on e f) :=
  .on fun _ p h => h.of_list (hf p)

theorem KeepsSlot.of_cmd {f : State → State} (hcmd : ∀ s, (f s).cmd = s.cmd)
    (hslot : ∀ s, (f s).slotCmd = s.slotCmd ∧ (f s).readbuf = s.readbuf ∧
      (f s).readlen = s.readlen ∧ (f s).supplied = s.supplied ∧ (f s).stores = s.stores ∧
      s.brk ≤ (f s).brk ∧ (f s).waiting = s.waiting) : KeepsSlot f := by
  refine ⟨fun s h => ?_, hslot⟩
  rw [hcmd]
  exact ⟨h.nodup, fun n hn => Nat.lt_of_lt_of_le (h.addr_lt n hn) (hslot s).2.2.2.2.2.1, h.tail⟩

theorem WellLinked.storeHead (h : WellLinked brk p) (c : Chunk) :
    WellLinked brk (p.storeHead c) := by
  unfold OutPipe.storeHead
  cases hlist : p.list with
  | nil => simpa using h
  | cons n rest =>
      have hnodup := h.nodup
      have hlt := h.addr_lt
      have htail := h.tail
      rw [hlist] at hnodup hlt htail
      exact ⟨by simpa using hnodup, by simpa using hlt, by simpa using htail⟩

/-- The nodes after a new link are some of the old ones and the new one. -/
theorem linkAfter_cases {a : Nat} {m : SendList} {l l' : List SendList}
    (h : linkAfter a m l = some l') :
    ∃ kept, kept <+: l ∧ kept ≠ [] ∧ l' = kept ++ [m] := by
  induction l generalizing l' with
  | nil => cases h
  | cons n rest ih =>
      rw [linkAfter] at h
      split at h
      · cases h
        exact ⟨[n], List.prefix_append [n] rest, by simp, rfl⟩
      · rw [Option.map_eq_some_iff] at h
        obtain ⟨l'', hl'', rfl⟩ := h
        obtain ⟨kept, hkept, -, rfl⟩ := ih hl''
        exact ⟨n :: kept, (List.prefix_cons_inj n).mpr hkept, by simp, rfl⟩

theorem WellLinked.link (h : WellLinked brk p) (a : Nat) (c : Chunk) :
    WellLinked (brk + 1) (p.link a brk c) := by
  have hsucc : WellLinked (brk + 1) p :=
    ⟨h.nodup, fun n hn => Nat.lt_succ_of_lt (h.addr_lt n hn), h.tail⟩
  unfold OutPipe.link
  cases hlink : linkAfter a ⟨brk, some c⟩ p.list with
  | none => exact hsucc.of_list rfl
  | some l =>
      obtain ⟨kept, hkept, hne, rfl⟩ := linkAfter_cases hlink
      constructor
      · rw [List.map_append, List.nodup_append]
        refine ⟨h.nodup.sublist (hkept.sublist.map _), List.nodup_singleton _, ?_⟩
        intro x hx y hy
        rw [List.map_cons, List.map_nil, List.mem_singleton] at hy
        obtain ⟨n, hn, rfl⟩ := List.mem_map.mp hx
        rw [hy]
        exact Nat.ne_of_lt (h.addr_lt n (hkept.subset hn))
      · intro n hn
        rcases List.mem_append.mp hn with hn | hn
        · exact Nat.lt_succ_of_lt (h.addr_lt n (hkept.subset hn))
        · rw [List.mem_singleton] at hn
          rw [hn]
          exact Nat.lt_succ_self _
      · intro n hn
        simp only [List.tail_append_of_ne_nil hne, List.mem_append, List.mem_singleton] at hn
        rcases hn with hn | hn
        · obtain ⟨x, kept, rfl⟩ := List.exists_cons_of_ne_nil hne
          obtain ⟨rest, hrest⟩ := hkept
          apply h.tail
          rw [← hrest]
          exact List.mem_append_left _ hn
        · rw [hn]
          rfl

theorem keepsSlot_link {c : Chunk} (pos : Nat) :
    KeepsSlot fun s => { s.on e (.link pos s.brk c) with brk := s.brk + 1 } := by
  constructor
  · intro s hs
    cases e with
    | intOut => exact hs.link pos c
    | bulkOut => exact ⟨hs.nodup, fun n hn => Nat.lt_succ_of_lt (hs.addr_lt n hn), hs.tail⟩
  · intro s
    cases e <;> exact ⟨rfl, rfl, rfl, rfl, rfl, Nat.le_succ _, rfl⟩

theorem keepsSlot_storeHead (c : Chunk) : KeepsSlot (·.on e (.storeHead c)) :=
  .on fun _ _ h => h.storeHead c

theorem keepsSlot_hold : KeepsSlot (·.on e .hold) :=
  .on_of_list fun p => by unfold hold; split <;> rfl

theorem keepsSlot_uhdEpRun (accepts : Bool) : KeepsSlot (·.on e (.uhdEpRun accepts)) :=
  .on_of_list fun p => by unfold OutPipe.uhdEpRun; split <;> rfl

theorem keepsSlot_pipeActs (e : Endpoint) : PipeActs e KeepsSlot where
  read := .refl
  alloc := .of_cmd (fun _ => rfl) fun _ => ⟨rfl, rfl, rfl, rfl, rfl, Nat.le_succ _, rfl⟩
  startAsync := .on_of_list fun _ => rfl
  completeAsync := .on_of_list fun _ => rfl
  startBuf := .on_of_list fun _ => rfl
  completeBuf := .on_of_list fun _ => rfl
  hold := keepsSlot_hold
  release := .on_of_list fun _ => rfl
  abort := .on_of_list fun _ => rfl
  useFreed := .on_of_list fun _ => rfl
  storeHead := keepsSlot_storeHead
  link pos _ := keepsSlot_link pos
  copyOut _ := .on_of_list fun _ => rfl
  uhdEpRun := keepsSlot_uhdEpRun

/-! ### A synchronous command is submitted -/

/-- No interrupt destroys `K`. -/
def MatchStable (K : State → Prop) : Prop := ∀ s t, K s → matchRely.rel s t → K t

theorem sat_modify_keeps {f : State → State} {K K' : State → Prop} (hf : KeepsSlot f)
    (hK : MatchStable K) (hK' : MatchStable K') (hstep : ∀ s, K s → K' (f s)) (hs : K s) :
    Sat matchRely (Prog.modify f) (fun _ t => K' t) s := by
  refine Sat.modify fun t hst ht => ⟨hf.inv ht, fun u htu _ => ?_⟩
  exact hK' _ _ (hstep t (hK s t hs hst)) htu

theorem sat_keeps_bind {β : Type} {f : State → State} {k : Unit → Prog State β}
    {Q : β → State → Prop} {K K' : State → Prop} (hK : MatchStable K) (hK' : MatchStable K')
    (hs : K s) (hinv : matchRely.inv s) (hf : KeepsSlot f) (hstep : ∀ s, K s → K' (f s))
    (hk : ∀ t, matchRely.inv t → K' t → Sat matchRely (k ()) Q t) :
    Sat matchRely (Prog.modify f >>= k) Q s :=
  (sat_modify_keeps hf hK hK' hstep hs).seq hinv fun _ t ht hat => hk t ht hat

theorem idle_stable : MatchStable fun s => s.cmd.transfer = none :=
  fun _ _ hs h => (h.1.fixed (.inl hs)).2.trans hs

/-- The endpoint is idle, so it takes the command. -/
theorem sat_usbSendCmd_true {cmd : Option Chunk} (hs : s.cmd.transfer = none)
    (hinv : matchRely.inv s) :
    Sat matchRely (usbSendCmd cmd true) (fun ok _ => ok = true) s := by
  unfold usbSendCmd
  refine sat_keeps_bind idle_stable idle_stable hs hinv (.on_of_list fun _ => rfl)
    (fun _ h => h) fun t ht hatt => ?_
  refine sat_keeps_bind idle_stable idle_stable hatt ht (.on_of_list fun _ => rfl)
    (fun _ h => h) fun u hu hatu => ?_
  intro v huv hv
  refine ⟨(keepsSlot_uhdEpRun true).inv hv, fun w _ _ => ?_⟩
  have hidle := idle_stable u v hatu huv
  simp [runs, hidle]

/-- The list has room, so the command is appended. -/
theorem sat_appendTail_true {c : Chunk} (hheld : s.cmd.held = true) (hroom : HasRoom s.cmd)
    (hne : s.cmd.list ≠ []) :
    Sat matchRely (appendTail .intOut (fun n => ar9170MaxCmdBufferLen < n) c true)
      (fun ok _ => ok = true) s := by
  have hfixed (l : List SendList) : MatchStable fun s => s.cmd.held = true ∧ s.cmd.list = l :=
    fun _ _ hs h => ⟨h.1.held.trans hs.1, (h.1.fixed (.inr hs.1)).1.trans hs.2⟩
  unfold appendTail
  refine Sat.read_bind fun t hst ht => ?_
  have hatt := hfixed s.cmd.list s t ⟨hheld, rfl⟩ hst
  obtain ⟨n, rest, hlist⟩ := List.exists_cons_of_ne_nil hne
  have hlist' : (t.pipe .intOut).list = n :: rest := hatt.2.trans hlist
  have hnodup : ((n :: rest).map (·.addr)).Nodup := by
    rw [← hlist']
    exact ht.2.nodup
  have htail := sat_findTail (e := .intOut) (r := matchRely) (hfixed (n :: rest))
    (fun _ h => h.2) hnodup rest [] n rfl (t.pipe .intOut).list.length 0 (by simp [hlist'])
    ⟨hatt.1, hlist'⟩ ht
  have hroot : ((t.pipe .intOut).list.head?.map (·.addr)).getD 0 = n.addr := by simp [hlist']
  simp only [hroot]
  apply htail.seq ht
  intro found u hu hfound
  obtain ⟨⟨b, -, rfl⟩, hatu⟩ := hfound
  have hcounter : decide (ar9170MaxCmdBufferLen < 0 + rest.length) = false := by
    rw [HasRoom, hlist, List.length_cons] at hroom
    rw [Nat.zero_add]
    exact decide_eq_false (Nat.not_lt.mpr (Nat.le_of_succ_le_succ hroom))
  simp only [hcounter, Bool.false_eq_true, if_false, if_true]
  refine Sat.modify_bind fun v huv hv => ⟨(keepsSlot_link b).inv hv, ?_⟩
  intro w _ hw
  have hkeeps : KeepsSlot (·.on .intOut .completeBuf) := .on_of_list fun _ => rfl
  exact ⟨hkeeps.inv hw, fun _ _ _ => rfl⟩

/-- What a synchronous command needs to be submitted. -/
structure CanSubmit (len : Nat) (env : Env) (p : OutPipe) : Prop where
  buffer : env.bufferOk = true
  fits : len + ar9170CmdHdrLen ≤ intrEndpointMaxSize
  accepts : env.accepts = true
  node : p.head.isSome = true → env.nodeOk = true
  canTake : CanTake p

instance (p : OutPipe) : Decidable (CanTake p) :=
  decidable_of_iff
    (p.list ≠ [] ∧ (p.head = none → p.list.tail = [] ∧ p.transfer = none) ∧
      p.list.length ≤ ar9170MaxCmdBufferLen + 1)
    ⟨fun h => ⟨h.1, h.2.1, h.2.2⟩, fun h => ⟨h.nonempty, h.idle, h.room⟩⟩

instance (len : Nat) (env : Env) (p : OutPipe) : Decidable (CanSubmit len env p) :=
  decidable_of_iff
    (env.bufferOk = true ∧ len + ar9170CmdHdrLen ≤ intrEndpointMaxSize ∧ env.accepts = true ∧
      (p.head.isSome = true → env.nodeOk = true) ∧ CanTake p)
    ⟨fun h => ⟨h.1, h.2.1, h.2.2.1, h.2.2.2.1, h.2.2.2.2⟩,
      fun h => ⟨h.buffer, h.fits, h.accepts, h.node, h.canTake⟩⟩

/-- An empty list stays empty, so the promise about the new node stays as well. -/
theorem CanSubmit.gentle {len : Nat} {env : Env} (hp : CanSubmit len env p) (h : Gentle p q) :
    CanSubmit len env q := by
  refine ⟨hp.buffer, hp.fits, hp.accepts, fun hq => ?_, h.canTake hp.canTake⟩
  cases hhead : p.head with
  | none =>
      have hfixed : p.Fixed := .inl (hp.canTake.idle hhead).2
      rw [h.head hfixed, hhead] at hq
      cases hq
  | some c => exact hp.node (by rw [hhead]; rfl)

theorem canSubmit_stable (len : Nat) (env : Env) :
    MatchStable fun s => CanSubmit len env s.cmd :=
  fun _ _ hs h => hs.gentle h.1

theorem sat_usbWriteReg_true {c : Chunk} {len : Nat} {env : Env}
    (hlen : c.len = len + ar9170CmdHdrLen) (hs : CanSubmit len env s.cmd)
    (hinv : matchRely.inv s) :
    Sat matchRely (usbWriteReg c env) (fun ok _ => ok = true) s := by
  have hfits : ¬intrEndpointMaxSize < c.len := by
    rw [hlen]
    exact Nat.not_lt.mpr hs.fits
  unfold usbWriteReg
  rw [if_neg hfits]
  refine sat_keeps_bind (canSubmit_stable len env) (canSubmit_stable len env) hs hinv
    (.on_of_list fun _ => rfl) (fun _ h => h.gentle (.of_list rfl rfl rfl)) fun t ht hatt => ?_
  refine Sat.atomically_bind fun u htu hu => ?_
  have hsubmit : CanSubmit len env u.cmd := canSubmit_stable len env t u hatt htu
  have hinv' : matchRely.inv (u.on .intOut .hold) := keepsSlot_hold.inv hu
  refine ⟨hinv', ?_⟩
  cases hhead : u.cmd.head with
  | some d =>
      have hhold : u.cmd.hold = { u.cmd with held := true } := by simp [hold, hhead]
      have hcmd : (u.on .intOut .hold).cmd = { u.cmd with held := true } := hhold
      rw [hsubmit.node (by rw [hhead]; rfl)]
      apply sat_appendTail_true
      · rw [hcmd]
      · rw [hcmd]
        exact hsubmit.canTake.room
      · rw [hcmd]
        exact hsubmit.canTake.nonempty
  | none =>
      obtain ⟨htail, htransfer⟩ := hsubmit.canTake.idle hhead
      have hcmd : (u.on .intOut .hold).cmd = u.cmd := by
        have hhold : u.cmd.hold = u.cmd := by simp [hold, hhead]
        exact hhold
      have hidle : (u.on .intOut .hold).cmd.transfer = none := by rw [hcmd]; exact htransfer
      refine Sat.read_bind fun v huv hv => ?_
      have hlist : v.cmd.list = u.cmd.list := by
        rw [(huv.1.fixed (.inl hidle)).1, hcmd]
      have hnext : v.cmd.hasNext = false := by simp [hasNext, hlist, htail]
      simp only [hnext, Bool.false_eq_true, if_false]
      have hatv := idle_stable _ v hidle huv
      have hstore (x : State) (hx : x.cmd.transfer = none) :
          (x.on .intOut (.storeHead c)).cmd.transfer = none := by
        have hsame : (x.cmd.storeHead c).transfer = x.cmd.transfer := by
          unfold OutPipe.storeHead
          split <;> rfl
        exact hsame.trans hx
      refine sat_keeps_bind idle_stable idle_stable hatv hv (keepsSlot_storeHead c) hstore
        fun w hw hatw => ?_
      refine sat_keeps_bind idle_stable idle_stable hatw hw (.on_of_list fun _ => rfl)
        (fun _ h => h) fun x hx hatx => ?_
      rw [hsubmit.accepts]
      exact sat_usbSendCmd_true hatx hx

/-! ### The slot -/

/-- The slot is open: it has no command yet. -/
structure SlotOpen (out : Option Nat) (outlen : Nat) (s : State) : Prop where
  slotCmd : s.slotCmd = none
  readbuf : s.readbuf = out
  readlen : s.readlen = outlen

theorem slotOpen_stable (out : Option Nat) (outlen : Nat) :
    MatchStable (SlotOpen out outlen) := by
  intro s t hs h
  obtain ⟨-, -, -, hslot, hbuf, hlen, -⟩ := h
  exact ⟨hslot.trans hs.slotCmd, hbuf.trans hs.readbuf, hlen.trans hs.readlen⟩

/-- The slot is taken over; `C` is about the list, which is left alone. -/
theorem sat_openSlot {C : OutPipe → Prop} (hC : MatchStable fun s => C s.cmd)
    {out : Option Nat} {outlen : Nat} (hs : C s.cmd) (hinv : matchRely.inv s) :
    Sat matchRely (openSlot out outlen) (fun _ t => SlotOpen out outlen t ∧ C t.cmd) s := by
  have hopen : MatchStable fun s => SlotOpen out outlen s ∧ C s.cmd :=
    fun s t hst h => ⟨slotOpen_stable out outlen s t hst.1 h, hC s t hst.2 h⟩
  unfold openSlot
  refine sat_keeps_bind hC hC hs hinv
    (.of_cmd (fun _ => rfl) fun _ => ⟨rfl, rfl, rfl, rfl, rfl, Nat.le_refl _, rfl⟩)
    (fun _ h => h) fun t ht hatt => ?_
  refine Sat.modify_bind fun u htu hu => ?_
  have hatu := hC t u hatt htu
  refine ⟨⟨⟨fun b h => (by cases h), hu.1.stores, hu.1.lt, hu.1.distinct, hu.1.waiting⟩, hu.2⟩, ?_⟩
  refine Sat.modify_bind fun v huv hv => ?_
  have hCv : C v.cmd := hC { u with readbuf := out, slotCmd := none } v hatu huv
  obtain ⟨-, -, -, hslot, hbuf, -, -⟩ := huv
  have hslot' : v.slotCmd = none := hslot
  refine ⟨⟨⟨fun b h => ?_, hv.1.stores, hv.1.lt, hv.1.distinct, hv.1.waiting⟩, hv.2⟩, ?_⟩
  · have hnone : (none : Option Nat) = some b := hslot'.symm.trans h
    cases hnone
  have hatv : SlotOpen out outlen { v with readlen := outlen } ∧ C v.cmd :=
    ⟨⟨hslot', hbuf, rfl⟩, hCv⟩
  have hinv' : matchRely.inv { v with readlen := outlen } := by
    refine ⟨⟨fun b h => ?_, hv.1.stores, hv.1.lt, hv.1.distinct, hv.1.waiting⟩, hv.2⟩
    have hnone : (none : Option Nat) = some b := hslot'.symm.trans h
    cases hnone
  refine sat_keeps_bind hopen hopen hatv hinv'
    (.of_cmd (fun _ => rfl) fun _ => ⟨rfl, rfl, rfl, rfl, rfl, Nat.le_refl _, rfl⟩)
    (fun _ h => ⟨⟨h.1.slotCmd, h.1.readbuf, h.1.readlen⟩, h.2⟩) fun w hw hatw => ?_
  exact sat_modify_keeps
    (.of_cmd (fun _ => rfl) fun _ => ⟨rfl, rfl, rfl, rfl, rfl, Nat.le_refl _, rfl⟩) hopen hopen
    (fun _ h => ⟨⟨h.1.slotCmd, h.1.readbuf, h.1.readlen⟩, h.2⟩) hatw

/-- The new command gets the slot. -/
theorem sat_cmdBuf_match {C : OutPipe → Prop} (hC : MatchStable fun s => C s.cmd)
    {len outlen : Nat} {out : Option Nat} {ok : Bool} (hs : SlotOpen out outlen s ∧ C s.cmd) :
    Sat matchRely (cmdBuf len (some (out, outlen)) ok)
      (fun buf t => C t.cmd ∧ (ok = true → ∃ c, buf = some c ∧ c.len = len + ar9170CmdHdrLen))
      s := by
  unfold cmdBuf
  cases ok with
  | false =>
      rw [if_neg Bool.false_ne_true]
      exact fun t hst _ => ⟨hC s t hs.2 hst, fun h => by cases h⟩
  | true =>
      rw [if_pos rfl]
      intro t hst ht
      have hopen := slotOpen_stable out outlen s t hs.1 hst
      have hCt := hC s t hs.2 hst
      let t' : State :=
        { t with
          brk := t.brk + 1, slotCmd := some t.brk
          supplied := t.supplied ++ [⟨t.brk, out, outlen⟩] }
      have hCt' (u : State) (htu : matchRely.rel t' u) : C u.cmd := hC t' u hCt htu
      refine ⟨⟨?_, ?_⟩, fun u htu _ => ⟨hCt' u htu, fun _ => ⟨_, rfl, rfl⟩⟩⟩
      · constructor
        · intro b hb
          cases hb
          exact ⟨⟨t.brk, out, outlen⟩, by simp, rfl, hopen.readbuf.symm, hopen.readlen.symm⟩
        · intro st hst'
          obtain ⟨hcount, x, hx, hcmd, hout⟩ := ht.1.stores st hst'
          exact ⟨hcount, x, List.mem_append_left _ hx, hcmd, hout⟩
        · intro x hx
          rcases List.mem_append.mp hx with hx | hx
          · exact Nat.lt_succ_of_lt (ht.1.lt x hx)
          · rw [List.mem_singleton] at hx
            rw [hx]
            exact Nat.lt_succ_self _
        · rw [List.map_append, List.nodup_append]
          refine ⟨ht.1.distinct, List.nodup_singleton _, ?_⟩
          intro x hx y hy
          rw [List.map_cons, List.map_nil, List.mem_singleton] at hy
          obtain ⟨z, hz, rfl⟩ := List.mem_map.mp hx
          rw [hy]
          exact Nat.ne_of_lt (ht.1.lt z hz)
        · exact ht.1.waiting
      · exact ⟨ht.2.nodup, fun n hn => Nat.lt_succ_of_lt (ht.2.addr_lt n hn), ht.2.tail⟩

/-- A command is submitted if it can be. -/
theorem sat_submitCmd_match {len outlen : Nat} {out : Option Nat} {env : Env} {need : Bool}
    (hs : SlotOpen out outlen s ∧ (need = true → CanSubmit len env s.cmd))
    (hinv : matchRely.inv s) :
    Sat matchRely (submitCmd len (some (out, outlen)) env)
      (fun ok _ => need = true → ok = true) s := by
  have hC : MatchStable fun s => need = true → CanSubmit len env s.cmd :=
    fun _ _ hs h hneed => (hs hneed).gentle h.1
  unfold submitCmd
  apply (sat_cmdBuf_match (C := fun p => need = true → CanSubmit len env p) hC hs).seq hinv
  intro buf t ht hbuf
  by_cases hneed : need = true
  · have hsubmit := hbuf.1 hneed
    obtain ⟨c, rfl, hlen⟩ := hbuf.2 hsubmit.buffer
    exact (sat_usbWriteReg_true hlen hsubmit ht).mono fun ok _ _ h _ => h
  · refine Sat.mono (Q := fun _ _ => True) ?_ fun ok _ _ _ h => absurd h hneed
    cases buf with
    | none => exact Sat.ret_true _
    | some c =>
        exact ((keepsSlot_pipeActs .intOut).usbWriteReg c env).sat_true fun f u hf hu => hf.inv hu

/-! ### Whole runs -/

/-- The steps under which commands and responses match. -/
def matchGuard : Guard State Irq Call where
  irq := matchIrq
  call
    | .exec cmd plen _ _ env, s => isAsync cmd = false → CanSubmit (plen % 256) env s.cmd
    | _, _ => True

instance (s : State) (l : Label Irq Call) : Decidable (matchGuard.admits s l) :=
  match l with
  | .irq i => inferInstanceAs (Decidable (matchIrq i s))
  | .main => .isTrue trivial
  | .call (.exec cmd plen _ _ env) =>
      inferInstanceAs (Decidable (isAsync cmd = false → CanSubmit (plen % 256) env s.cmd))
  | .call (.submit _ _) => .isTrue trivial
  | .call (.flush _) => .isTrue trivial
  | .call (.tx _ _ _ _) => .isTrue trivial

theorem sat_execCmd_match {cmd : UInt8} {plen outlen : Nat} {out : Option Nat} {env : Env}
    (hs : isAsync cmd = false → CanSubmit (plen % 256) env s.cmd) (hinv : matchRely.inv s) :
    Sat matchRely (execCmd cmd plen out outlen env) (fun _ _ => True) s := by
  have hC : MatchStable fun s => (!isAsync cmd) = true → CanSubmit (plen % 256) env s.cmd :=
    fun _ _ hs h hneed => (hs hneed).gentle h.1
  have hneed : (!isAsync cmd) = true → CanSubmit (plen % 256) env s.cmd :=
    fun h => hs (by simpa using h)
  unfold execCmd
  apply (sat_openSlot (C := fun p => (!isAsync cmd) = true → CanSubmit (plen % 256) env p) hC
    hneed hinv).seq hinv
  intro _ t ht hatt
  apply (sat_submitCmd_match hatt ht).seq ht
  intro result u hu hresult
  split
  · have hf : KeepsSlot fun s => { s with cmdWait := false } :=
      .of_cmd (fun _ => rfl) fun _ => ⟨rfl, rfl, rfl, rfl, rfl, Nat.le_refl _, rfl⟩
    exact fun v _ hv => ⟨hf.inv hv, fun _ _ _ => trivial⟩
  next hsync =>
    have hok : result = true := hresult (by simpa using hsync)
    subst hok
    refine Sat.modify_bind fun v _ hv => ⟨⟨⟨hv.1.slot, hv.1.stores, hv.1.lt, hv.1.distinct,
      fun h => by cases h⟩, hv.2⟩, ?_⟩
    intro w _ _ _ x _ hx
    exact ⟨⟨⟨hx.1.slot, hx.1.stores, hx.1.lt, hx.1.distinct, fun h => by cases h⟩, hx.2⟩,
      fun _ _ _ => trivial⟩

theorem sat_body_match {k : Call} (hinv : matchRely.inv s) (hk : matchGuard.call k s) :
    Sat matchRely (body k) (fun _ _ => True) s := by
  have keeps {p : Prog State Unit} (hp : Acts KeepsSlot p) :
      Sat matchRely p (fun _ _ => True) s := hp.sat_true fun f u hf hu => hf.inv hu
  cases k with
  | exec cmd plen out outlen env =>
      apply (sat_execCmd_match hk hinv).seq hinv
      exact fun _ _ _ _ => Sat.ret_true _
  | submit len env =>
      exact keeps (((keepsSlot_pipeActs .intOut).submitCmd len none env
        fun _ _ h => by cases h).bind fun _ => Acts.ret _)
  | flush accepts => exact keeps ((keepsSlot_pipeActs .intOut).schAsyncCmdCheck accepts)
  | tx len started hasData env =>
      exact keeps ((keepsSlot_pipeActs .bulkOut).usbTx len started hasData env)

/-- In every state of a run each copy fitted and went to the buffer of the
command it answers, and a call that waits has submitted its command. -/
theorem matched_of_run {cmdBufs : Nat} {ls : List (Label Irq Call)} {c : Config State}
    (h : machine.Run matchGuard (.idle (.init cmdBufs)) ls c) :
    (∀ st ∈ c.state.stores, st.count ≤ st.readlen ∧
      ∃ r ∈ c.state.supplied, r.cmd = st.answers ∧ r.out = some st.buf) ∧
      (c.state.supplied.map (·.cmd)).Nodup ∧ c.state.waiting ≠ some false := by
  have hinit : matchRely.inv (State.init cmdBufs) := by
    refine ⟨⟨fun b h => ?_, fun st h => ?_, fun r h => ?_, List.nodup_nil, fun h => ?_⟩, ?_⟩
    · cases h
    · cases h
    · cases h
    · cases h
    · exact ⟨by simp [State.init, OutPipe.init], by simp [State.init, OutPipe.init],
        by simp [State.init, OutPipe.init]⟩
  have hinv := Machine.Run.inv (r := matchRely) (fun i s s' hs hG hi => irq_match hs hG hi)
    (fun k s hs hG => sat_body_match hs hG) hinit h
  exact ⟨hinv.1.stores, hinv.1.distinct, hinv.1.waiting⟩

/-- A register is read: the command is sent, its response comes, and the wait
ends. -/
def registerRead : List (Label Irq Call) :=
  callFor (.exec 0x00 4 (some 100) 4 ⟨true, true, true⟩) 15 ++
    [.irq (.intOutDone .noError), .irq (.response ⟨0, 0x00, 4, 8, 2⟩), .main, .main]

theorem matched_of_run_registerRead :
    ∃ c, machine.Run matchGuard (.idle (.init 4)) registerRead c ∧ c.rest = .ret () ∧
      c.state.stores = [⟨2, 100, 4, 4⟩] ∧
      ∀ st ∈ c.state.stores, st.count ≤ st.readlen ∧
        ∃ r ∈ c.state.supplied, r.cmd = st.answers ∧ r.out = some st.buf := by
  obtain ⟨c, hrun, hidle, hstores⟩ := machine.exists_idle_run_of_exec matchGuard
    (.idle (.init 4)) registerRead (fun s => s.stores = [⟨2, 100, 4, 4⟩]) (by decide) (by decide)
  exact ⟨c, hrun, hidle, hstores, (matched_of_run hrun).1⟩

/-- There is no memory for the command, and the call waits for its response. -/
def noMemoryForCommand : List (Label Irq Call) :=
  callFor (.exec 0x00 4 (some 100) 4 ⟨false, true, true⟩) 6

/-- A response of twelve bytes is copied to a buffer of four. -/
def longResponse : List (Label Irq Call) :=
  callFor (.exec 0x00 4 (some 100) 4 ⟨true, true, true⟩) 15 ++
    [.irq (.intOutDone .noError), .irq (.response ⟨0, 0x00, 12, 16, 2⟩)]

theorem not_matched :
    (∃ c, machine.Run Guard.any (.idle (.init 4)) noMemoryForCommand c ∧
      c.isBlocked = true ∧ c.state.waiting = some false ∧ c.state.cmd.submitted = []) ∧
    ∃ c, machine.Run Guard.any (.idle (.init 4)) longResponse c ∧
      c.state.stores = [⟨2, 100, 12, 4⟩] := by
  constructor
  · exact machine.exists_blocked_run_of_exec Guard.any (.idle (.init 4)) noMemoryForCommand
      (fun s => s.waiting = some false ∧ s.cmd.submitted = []) (by decide) (by decide)
  · exact machine.exists_run_of_exec Guard.any (.idle (.init 4)) longResponse
      (fun s => s.stores = [⟨2, 100, 12, 4⟩]) (by decide) (by decide)

end Calipso.Ar9170.Usb
