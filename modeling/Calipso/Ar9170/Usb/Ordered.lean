import Calipso.Ar9170.Usb.State
import Mathlib.Data.List.Nodup

/-!
# Order of the chunks on a pipe

`Ordered` relates the list of a pipe to its history: what was accepted is what
was freed followed by what is still in the list, in that order, and the transfer
that is going on is the one of the head. `Calm` bounds what the interrupts do to
a pipe while the main loop works on it.
-/

namespace Calipso.Ar9170.Usb.OutPipe

/-- Chunks pass through the list in order and are freed after their transfer. -/
structure Ordered (brk : Nat) (p : OutPipe) : Prop where
  cells : (∃ a, p.list = [⟨a, none⟩]) ∨ p.list ≠ [] ∧ ∀ n ∈ p.list, n.chunk.isSome = true
  nodup : (p.list.map (·.addr)).Nodup
  addr_lt : ∀ n ∈ p.list, n.addr < brk
  buffer_lt : ∀ c ∈ p.accepted, c.buffer < brk
  distinct : (p.accepted.map (·.buffer)).Nodup
  accepted : p.accepted = p.freed ++ p.pending
  sent : p.sent = p.freed.map some
  submitted : p.submitted = p.sent ++ p.transfer.toList
  transfer : ∀ t, p.transfer = some t → t.isSome = true ∧ p.head = t
  dangling : p.dangling = false

/-- What the interrupts may do to a pipe. -/
structure Calm (p q : OutPipe) : Prop where
  accepted : q.accepted = p.accepted
  submitted : q.submitted = p.submitted
  outBuffer : q.outBuffer = p.outBuffer
  held : q.held = p.held
  bufLock : q.bufLock = p.bufLock
  asyncLock : q.asyncLock = true → p.asyncLock = true ∧ q.transfer = p.transfer
  fixed : p.transfer = none ∨ p.held = true → q.list = p.list ∧ q.transfer = p.transfer
  length : q.list.length ≤ p.list.length

/-- The list does not change: no transfer can end now. -/
def Fixed (p : OutPipe) : Prop := p.transfer = none ∨ p.held = true

/-- The locks between two calls: the asynchronous lock is set for a transfer. -/
structure Settled (p : OutPipe) : Prop where
  bufLock : p.bufLock = false
  held : p.held = false
  asyncLock : p.asyncLock = true → p.transfer.isSome = true

/-- The fields `Ordered` is about. -/
def ledger (p : OutPipe) :
    List SendList × Option (Option Chunk) × List Chunk × List (Option Chunk) ×
      List (Option Chunk) × List Chunk × Bool :=
  (p.list, p.transfer, p.accepted, p.submitted, p.sent, p.freed, p.dangling)

variable {brk : Nat} {p q r : OutPipe}

theorem Calm.refl (p : OutPipe) : Calm p p :=
  ⟨rfl, rfl, rfl, rfl, rfl, fun h => ⟨h, rfl⟩, fun _ => ⟨rfl, rfl⟩, Nat.le_refl _⟩

theorem Calm.isFixed (h : Calm p q) (hp : p.Fixed) : q.Fixed := by
  rcases hp with ht | hh
  · left
    rw [(h.fixed (.inl ht)).2]
    exact ht
  · right
    rw [h.held]
    exact hh

theorem Calm.head (h : Calm p q) (hp : p.Fixed) : q.head = p.head := by
  unfold OutPipe.head
  rw [(h.fixed hp).1]

theorem Calm.trans (h : Calm p q) (h' : Calm q r) : Calm p r where
  accepted := h'.accepted.trans h.accepted
  submitted := h'.submitted.trans h.submitted
  outBuffer := h'.outBuffer.trans h.outBuffer
  held := h'.held.trans h.held
  bufLock := h'.bufLock.trans h.bufLock
  asyncLock hr := by
    obtain ⟨hq, ht⟩ := h'.asyncLock hr
    obtain ⟨hp, ht'⟩ := h.asyncLock hq
    exact ⟨hp, ht.trans ht'⟩
  fixed hp := by
    obtain ⟨hl, ht⟩ := h.fixed hp
    obtain ⟨hl', ht'⟩ := h'.fixed (h.isFixed hp)
    exact ⟨hl'.trans hl, ht'.trans ht⟩
  length := Nat.le_trans h'.length h.length

theorem Settled.calm (hp : p.Settled) (h : Calm p q) : q.Settled where
  bufLock := h.bufLock.trans hp.bufLock
  held := h.held.trans hp.held
  asyncLock hq := by
    obtain ⟨hlock, ht⟩ := h.asyncLock hq
    rw [ht]
    exact hp.asyncLock hlock

/-- Steps that leave the ledger alone keep the order. -/
theorem Ordered.frame {brk' : Nat} (h : p.Ordered brk) (hle : brk ≤ brk')
    (hq : q.ledger = p.ledger) : q.Ordered brk' := by
  obtain ⟨hlist, htransfer, haccepted, hsubmitted, hsent, hfreed, hdangling⟩ :
      q.list = p.list ∧ q.transfer = p.transfer ∧ q.accepted = p.accepted ∧
        q.submitted = p.submitted ∧ q.sent = p.sent ∧ q.freed = p.freed ∧
        q.dangling = p.dangling := by
    simpa [ledger] using hq
  have hpending : q.pending = p.pending := by rw [pending, hlist, pending]
  have hhead : q.head = p.head := by rw [OutPipe.head, hlist, OutPipe.head]
  constructor
  · rw [hlist]
    exact h.cells
  · rw [hlist]
    exact h.nodup
  · rw [hlist]
    exact fun n hn => Nat.lt_of_lt_of_le (h.addr_lt n hn) hle
  · rw [haccepted]
    exact fun c hc => Nat.lt_of_lt_of_le (h.buffer_lt c hc) hle
  · rw [haccepted]
    exact h.distinct
  · rw [haccepted, hfreed, hpending]
    exact h.accepted
  · rw [hsent, hfreed]
    exact h.sent
  · rw [hsubmitted, hsent, htransfer]
    exact h.submitted
  · rw [htransfer, hhead]
    exact h.transfer
  · rw [hdangling]
    exact h.dangling

theorem pending_cons {a : Nat} {c : Chunk} {rest : List SendList}
    (hlist : p.list = ⟨a, some c⟩ :: rest) : p.pending = c :: rest.filterMap (·.chunk) := by
  simp [pending, hlist]

/-- The list holds no chunk, or every node holds one. -/
theorem Ordered.list_of_head_none (h : p.Ordered brk) (hhead : p.head = none) :
    ∃ a, p.list = [⟨a, none⟩] := by
  rcases h.cells with hnone | ⟨hne, hsome⟩
  · exact hnone
  · obtain ⟨n, rest, hlist⟩ := List.exists_cons_of_ne_nil hne
    have hn : n.chunk.isSome = true := hsome n (by simp [hlist])
    have hchunk : n.chunk = none := by simpa [OutPipe.head, hlist] using hhead
    simp [hchunk] at hn

theorem Ordered.list_of_head_some (h : p.Ordered brk) {c : Chunk} (hhead : p.head = some c) :
    ∃ a rest, p.list = ⟨a, some c⟩ :: rest ∧ ∀ n ∈ rest, n.chunk.isSome = true := by
  rcases h.cells with ⟨a, hlist⟩ | ⟨hne, hsome⟩
  · simp [OutPipe.head, hlist] at hhead
  · obtain ⟨⟨a, x⟩, rest, hlist⟩ := List.exists_cons_of_ne_nil hne
    have hx : x = some c := by simpa [OutPipe.head, hlist] using hhead
    subst hx
    exact ⟨a, rest, hlist, fun n hn => hsome n (by simp [hlist, hn])⟩

theorem Ordered.transfer_eq_none (h : p.Ordered brk) (hhead : p.head = none) :
    p.transfer = none := by
  cases ht : p.transfer with
  | none => rfl
  | some t =>
      obtain ⟨hsome, heq⟩ := h.transfer t ht
      rw [← heq, hhead] at hsome
      cases hsome

/-- The buffer at the head is not freed yet. -/
theorem Ordered.head_notMem_freed (h : p.Ordered brk) {c : Chunk} (hhead : p.head = some c) :
    c ∉ p.freed := by
  obtain ⟨a, rest, hlist, -⟩ := h.list_of_head_some hhead
  have hnodup : p.accepted.Nodup := List.Nodup.of_map _ h.distinct
  rw [h.accepted, pending_cons hlist] at hnodup
  intro hc
  exact (List.disjoint_of_nodup_append hnodup) hc List.mem_cons_self

/-- A transfer ends without an error and its callback frees the head. -/
theorem Ordered.complete (h : p.Ordered brk) (ht : p.transfer.isSome = true) :
    (p.endTransfer .noError).freeHead.Ordered brk := by
  obtain ⟨t, ht⟩ := Option.isSome_iff_exists.mp ht
  obtain ⟨hsome, hhead⟩ := h.transfer t ht
  obtain ⟨c, rfl⟩ := Option.isSome_iff_exists.mp hsome
  obtain ⟨a, rest, hlist, hrest⟩ := h.list_of_head_some hhead
  have haccepted : p.accepted = p.freed ++ c :: rest.filterMap (·.chunk) := by
    rw [h.accepted, pending_cons hlist]
  have hfree : (p.endTransfer .noError).freeHead =
      { p with
        transfer := none
        sent := p.sent ++ [some c]
        list := if rest = [] then [⟨a, none⟩] else rest
        freed := p.freed ++ [c] } := by
    simp [endTransfer, freeHead, hlist, ht]
  rw [hfree]
  have hnodup := h.nodup
  rw [hlist, List.map_cons, List.nodup_cons] at hnodup
  have hlt : ∀ n ∈ rest, n.addr < brk := fun n hn => h.addr_lt n (by simp [hlist, hn])
  constructor
  · by_cases hnil : rest = []
    · exact .inl ⟨a, if_pos hnil⟩
    · refine .inr ?_
      simp only [if_neg hnil]
      exact ⟨hnil, hrest⟩
  · by_cases hnil : rest = []
    · simp [hnil]
    · simp only [if_neg hnil]
      exact hnodup.2
  · by_cases hnil : rest = []
    · have ha : a < brk := h.addr_lt ⟨a, some c⟩ (by simp [hlist])
      simpa [hnil] using ha
    · simp only [if_neg hnil]
      exact hlt
  · exact h.buffer_lt
  · exact h.distinct
  · by_cases hnil : rest = []
    · simp [haccepted, hnil, pending]
    · simp [haccepted, hnil, pending]
  · simp [h.sent]
  · simp [h.submitted, ht]
  · intro t' ht'
    cases ht'
  · exact h.dangling

/-- A fresh chunk is stored in the empty head. -/
theorem Ordered.storeHead (h : p.Ordered brk) (hhead : p.head = none) {c : Chunk}
    (hlt : c.buffer < brk) (hc : ∀ d ∈ p.accepted, d.buffer ≠ c.buffer) :
    (p.storeHead c).Ordered brk ∧ (p.storeHead c).head = some c := by
  obtain ⟨a, hlist⟩ := h.list_of_head_none hhead
  have hstore : p.storeHead c =
      { p with list := [⟨a, some c⟩], accepted := p.accepted ++ [c] } := by
    simp [OutPipe.storeHead, hlist]
  have hpending : p.pending = [] := by simp [pending, hlist]
  have haccepted : p.accepted = p.freed := by
    rw [h.accepted, hpending, List.append_nil]
  have ha : a < brk := h.addr_lt ⟨a, none⟩ (by simp [hlist])
  rw [hstore]
  refine ⟨?_, rfl⟩
  constructor
  · right
    simp
  · simp
  · simpa using ha
  · intro d hd
    rcases List.mem_append.mp hd with hd | hd
    · exact h.buffer_lt d hd
    · rw [List.mem_singleton] at hd
      rw [hd]
      exact hlt
  · rw [List.map_append, List.nodup_append]
    refine ⟨h.distinct, List.nodup_singleton _, ?_⟩
    simpa using hc
  · simp [pending, haccepted]
  · exact h.sent
  · exact h.submitted
  · intro t ht
    rw [h.transfer_eq_none hhead] at ht
    cases ht
  · exact h.dangling

/-- The node behind the last one is a new one. -/
theorem linkAfter_last {m : SendList} {a : Nat} {l : List SendList} (hne : l ≠ [])
    (hnodup : (l.map (·.addr)).Nodup) (ha : (l.getLast hne).addr = a) :
    linkAfter a m l = some (l ++ [m]) := by
  induction l with
  | nil => exact absurd rfl hne
  | cons n rest ih =>
      rw [List.map_cons, List.nodup_cons] at hnodup
      by_cases hrest : rest = []
      · subst hrest
        have hn : n.addr = a := by simpa using ha
        simp [linkAfter, hn]
      · rw [List.getLast_cons hrest] at ha
        have hn : n.addr ≠ a := by
          intro heq
          apply hnodup.1
          rw [heq, ← ha]
          exact List.mem_map_of_mem (List.getLast_mem hrest)
        simp [linkAfter, hn, ih hrest hnodup.2 ha]

/-- A new node with a fresh chunk is linked behind the last node. -/
theorem Ordered.link (h : p.Ordered brk) {c₀ c : Chunk} (hhead : p.head = some c₀) {a : Nat}
    (ha : (p.list.getLast?).map (·.addr) = some a) (hlt : c.buffer < brk)
    (hc : ∀ d ∈ p.accepted, d.buffer ≠ c.buffer) :
    (p.link a brk c).Ordered (brk + 1) ∧
      p.link a brk c =
        { p with
          list := p.list ++ [⟨brk, some c⟩], accepted := p.accepted ++ [c], held := false } := by
  obtain ⟨b, rest, hlist, hrest⟩ := h.list_of_head_some hhead
  have hne : p.list ≠ [] := by simp [hlist]
  have hlast : (p.list.getLast hne).addr = a := by
    rw [List.getLast?_eq_some_getLast hne] at ha
    simpa using ha
  have hlink : p.link a brk c =
      { p with
        list := p.list ++ [⟨brk, some c⟩], accepted := p.accepted ++ [c], held := false } := by
    rw [OutPipe.link, linkAfter_last hne h.nodup hlast]
  refine ⟨?_, hlink⟩
  rw [hlink]
  constructor
  · right
    refine ⟨by simp, fun n hn => ?_⟩
    rcases List.mem_append.mp hn with hn | hn
    · rcases h.cells with ⟨x, hx⟩ | ⟨-, hsome⟩
      · simp [OutPipe.head, hx] at hhead
      · exact hsome n hn
    · rw [List.mem_singleton] at hn
      rw [hn]
      rfl
  · rw [List.map_append, List.nodup_append]
    refine ⟨h.nodup, List.nodup_singleton _, ?_⟩
    intro x hx y hy
    rw [List.map_cons, List.map_nil, List.mem_singleton] at hy
    obtain ⟨n, hn, rfl⟩ := List.mem_map.mp hx
    have hnlt := h.addr_lt n hn
    rw [hy]
    exact Nat.ne_of_lt hnlt
  · intro n hn
    rcases List.mem_append.mp hn with hn | hn
    · exact Nat.lt_succ_of_lt (h.addr_lt n hn)
    · rw [List.mem_singleton] at hn
      rw [hn]
      exact Nat.lt_succ_self _
  · intro d hd
    rcases List.mem_append.mp hd with hd | hd
    · exact Nat.lt_succ_of_lt (h.buffer_lt d hd)
    · rw [List.mem_singleton] at hd
      rw [hd]
      exact Nat.lt_succ_of_lt hlt
  · rw [List.map_append, List.nodup_append]
    refine ⟨h.distinct, List.nodup_singleton _, ?_⟩
    simpa using hc
  · simp [pending, h.accepted]
  · exact h.sent
  · exact h.submitted
  · intro t ht
    have hheadEq : ({ p with
        list := p.list ++ [⟨brk, some c⟩], accepted := p.accepted ++ [c],
        held := false } : OutPipe).head = p.head := by
      simp [OutPipe.head, hlist]
    rw [hheadEq]
    exact h.transfer t ht
  · exact h.dangling

/-- The bytes of the head are copied. -/
theorem Ordered.copyOut (h : p.Ordered brk) {c : Chunk} (hhead : p.head = some c) :
    (p.copyOut (some c)).Ordered brk := by
  have hc : c ∉ p.freed := h.head_notMem_freed hhead
  have hcopy : p.copyOut (some c) = { p with outBuffer := some c } := by
    simp [OutPipe.copyOut, hc]
  rw [hcopy]
  exact h.frame (Nat.le_refl _) rfl

/-- The endpoint takes the bytes of the head, or it is busy. -/
theorem Ordered.uhdEpRun (h : p.Ordered brk) {c : Chunk} (hhead : p.head = some c)
    (hout : p.outBuffer = some c) (accepts : Bool) : (p.uhdEpRun accepts).Ordered brk := by
  unfold OutPipe.uhdEpRun
  split
  next hruns =>
    have ht : p.transfer = none := by
      have hidle := (Bool.and_eq_true _ _).mp hruns
      simpa using hidle.1
    constructor
    · exact h.cells
    · exact h.nodup
    · exact h.addr_lt
    · exact h.buffer_lt
    · exact h.distinct
    · exact h.accepted
    · exact h.sent
    · simp [h.submitted, ht]
    · intro t ht'
      rw [hout, Option.some.injEq] at ht'
      subst ht'
      exact ⟨rfl, hhead⟩
    · exact h.dangling
  next => exact h.frame (Nat.le_refl _) rfl

/-- Only the locks change. -/
theorem Calm.of_unlock (hledger : q.ledger = p.ledger) (hout : q.outBuffer = p.outBuffer)
    (hheld : q.held = p.held) (hbuf : q.bufLock = p.bufLock)
    (hasync : q.asyncLock = true → p.asyncLock = true) : Calm p q := by
  obtain ⟨hlist, htransfer, haccepted, hsubmitted, -⟩ :
      q.list = p.list ∧ q.transfer = p.transfer ∧ q.accepted = p.accepted ∧
        q.submitted = p.submitted ∧ q.sent = p.sent ∧ q.freed = p.freed ∧
        q.dangling = p.dangling := by
    simpa [ledger] using hledger
  exact ⟨haccepted, hsubmitted, hout, hheld, hbuf, fun h => ⟨hasync h, htransfer⟩,
    fun _ => ⟨hlist, htransfer⟩, Nat.le_of_eq (congrArg List.length hlist)⟩

/-- The end of a transfer while the main loop does not rely on the list. -/
theorem Calm.of_complete (ht : p.transfer.isSome = true) (hheld : p.held = false)
    (haccepted : q.accepted = p.accepted) (hsubmitted : q.submitted = p.submitted)
    (hout : q.outBuffer = p.outBuffer) (hheld' : q.held = p.held)
    (hbuf : q.bufLock = p.bufLock) (hasync : q.asyncLock = false)
    (hlength : q.list.length ≤ p.list.length) : Calm p q := by
  refine ⟨haccepted, hsubmitted, hout, hheld', hbuf, fun h => ?_, fun h => ?_, hlength⟩
  · rw [hasync] at h
    cases h
  · rcases h with h | h
    · rw [h] at ht
      cases ht
    · rw [hheld] at h
      cases h

theorem freeHead_length (p : OutPipe) : p.freeHead.list.length ≤ p.list.length := by
  unfold freeHead
  cases hlist : p.list with
  | nil => simp [hlist]
  | cons n rest =>
      cases hchunk : n.chunk with
      | none => simp [hchunk, hlist]
      | some c => by_cases hrest : rest = [] <;> simp [hchunk, hrest]

/-- What `freeHead` leaves alone. -/
theorem freeHead_fields (p : OutPipe) :
    p.freeHead.accepted = p.accepted ∧ p.freeHead.submitted = p.submitted ∧
      p.freeHead.outBuffer = p.outBuffer ∧ p.freeHead.held = p.held ∧
      p.freeHead.bufLock = p.bufLock ∧ p.freeHead.asyncLock = p.asyncLock ∧
      p.freeHead.transfer = p.transfer := by
  unfold freeHead
  split
  · exact ⟨rfl, rfl, rfl, rfl, rfl, rfl, rfl⟩
  · split <;> exact ⟨rfl, rfl, rfl, rfl, rfl, rfl, rfl⟩

/-- The chunks went through the list: each was accepted once, submitted at most
once and in order, and freed once and after its own transfer. -/
def delivered (p : OutPipe) : Prop :=
  (p.accepted.map (·.buffer)).Nodup ∧ p.accepted = p.freed ++ p.pending ∧
    p.submitted <+: p.accepted.map some ∧ p.submitted = p.sent ++ p.transfer.toList ∧
    p.freed.map some = p.sent ∧ p.dangling = false

instance (p : OutPipe) : Decidable p.delivered := by
  unfold delivered
  infer_instance

theorem Ordered.delivered (h : p.Ordered brk) : p.delivered := by
  have hsub : p.submitted <+: p.accepted.map some := by
    rw [h.submitted, h.sent, h.accepted, List.map_append, List.prefix_append_right_inj]
    cases ht : p.transfer with
    | none => simp
    | some t =>
        obtain ⟨hsome, hhead⟩ := h.transfer t ht
        obtain ⟨c, rfl⟩ := Option.isSome_iff_exists.mp hsome
        obtain ⟨a, rest, hlist, -⟩ := h.list_of_head_some hhead
        simp [pending, hlist]
  exact ⟨h.distinct, h.accepted, hsub, h.submitted, h.sent.symm, h.dangling⟩

theorem ordered_init {root : Nat} (h : root < brk) : (OutPipe.init root).Ordered brk where
  cells := .inl ⟨root, rfl⟩
  nodup := by simp [OutPipe.init]
  addr_lt n hn := by
    rw [OutPipe.init, List.mem_singleton] at hn
    rw [hn]
    exact h
  buffer_lt c hc := by cases hc
  distinct := by simp [OutPipe.init]
  accepted := rfl
  sent := rfl
  submitted := rfl
  transfer t ht := by cases ht
  dangling := rfl

end Calipso.Ar9170.Usb.OutPipe
