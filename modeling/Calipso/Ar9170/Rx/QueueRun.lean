import Calipso.Ar9170.Rx.QueueMemory

/-!
# Runs of the reception queue

The scheduler takes the frames from the front of the queue, one at a time, and an interrupt
with the next MPDU can come between any two of its steps. `served_iff` says when every
frame is stored as a whole or not at all, handed over once and freed once.
-/

namespace Calipso.Ar9170.RxQueue

open Memory HeapM

section Code

/-- Where the scheduler is. -/
inductive Pc
  | idle
  | called
  | got (nextSkb : ℕ)
  | handled (nextSkb : ℕ)
  | released (nextSkb : ℕ)
  | cleared
  deriving DecidableEq

/-- What a step of the scheduler leaves: the queue pointer, where it is, and what has been
given to `__ieee80211_rx`. -/
structure Turn where
  queue : Ptr
  pc : Pc
  given : Option (ℕ × List UInt8)

/-- `__ieee80211_rx`, as far as it reads the frame. -/
def ieee80211Rx (skb : ℕ) : Mem (ℕ × List UInt8) := do
  let (data, len) ← loadSkBuff (some skb)
  let l ← loadBytes data
  pure (skb, l.take len)

/-- One step of `ar9170_sch_async_rx_check` and `ar9170_async_rx`. -/
def asyncRx (queue : Ptr) : Pc → Mem Turn
  | .idle => do
      let empty ← LinkedList.isEmpty queue
      pure ⟨queue, if empty then .idle else .called, none⟩
  | .called => do
      let nextSkb ← LinkedList.get queue
      pure ⟨queue, nextSkb.elim .cleared .got, none⟩
  | .got nextSkb => do
      let frame ← ieee80211Rx nextSkb
      pure ⟨queue, .handled nextSkb, some frame⟩
  | .handled nextSkb => do
      let (data, _) ← loadSkBuff (some nextSkb)
      if data = none then pure ⟨queue, .cleared, none⟩
      else do
        free data
        pure ⟨queue, .released nextSkb, none⟩
  | .released nextSkb => do
      storeData (some nextSkb) none
      pure ⟨queue, .cleared, none⟩
  | .cleared => do
      let queue ← LinkedList.removeFirst queue
      pure ⟨queue, .idle, none⟩

end Code

/-! ### Runs -/

/-- The queue, the memory and the scheduler. `stored` is every frame that has been added
to the queue and `given` what has been handed to `__ieee80211_rx`. -/
structure Rx where
  queue : Ptr
  heap : Heap (Block Item)
  pc : Pc
  stored : List Frame
  given : List (ℕ × List UInt8)

/-- What happens next: an interrupt with a received MPDU, a step of the scheduler, or
something else that leaves this memory. -/
inductive Event
  | mpdu (buf : ℕ → UInt8) (len : ℤ)
  | scheduler
  | other (h : Heap (Block Item))

/-- After a step of the scheduler. -/
def Rx.after (s : Rx) (t : Turn) (h : Heap (Block Item)) : Rx :=
  { s with queue := t.queue, heap := h, pc := t.pc, given := s.given ++ t.given.toList }

def Rx.step (s : Rx) : Event → Except Fault Rx
  | .mpdu buf len =>
      match scheduleHandleMpdu s.queue buf len s.heap with
      | .error e => .error e
      | .ok (r, h) => .ok { s with queue := r.1, heap := h, stored := s.stored ++ r.2.toList }
  | .scheduler =>
      match asyncRx s.queue s.pc s.heap with
      | .error e => .error e
      | .ok (t, h) => .ok (s.after t h)
  | .other h => .ok { s with heap := h }

/-- A block of the queue: a list node, or a block of a stored frame. -/
def Rx.Owns (s : Rx) (a : ℕ) : Prop :=
  s.queue = some a ∨ (∃ l, Holds s.heap s.queue l ∧ a ∈ l.map Prod.fst) ∨
    ∃ f ∈ s.stored, a = f.skb ∨ a = f.data

/-- Other code leaves the blocks of the queue alone, and no address is used twice. -/
def Rx.Fits (s : Rx) : Event → Prop
  | .mpdu _ _ => True
  | .scheduler => True
  | .other h => Later s.heap h ∧ ∀ a, s.Owns a → h.get a = s.heap.get a

/-- The frame is in memory as it was received. -/
def Intact (h : Heap (Block Item)) (f : Frame) : Prop :=
  h.get f.skb = some (.payload (.skBuff (some f.data) f.content.length)) ∧
    ∃ rest, h.get f.data = some (.payload (.bytes (f.content ++ rest)))

/-- The socket buffer and its data have been freed. -/
def Freed (h : Heap (Block Item)) (f : Frame) : Prop :=
  h.get f.skb = none ∧ h.get f.data = none

/-- The socket buffer with what was received. -/
def Frame.whole (f : Frame) : ℕ × List UInt8 := (f.skb, f.content)

/-- `n` steps of the scheduler. -/
def Rx.schedule : ℕ → Rx → Except Fault Rx
  | 0, s => .ok s
  | n + 1, s =>
      match s.step .scheduler with
      | .error e => .error e
      | .ok s' => Rx.schedule n s'

/-- The stored frames have been handed over in order, each one once and as it was
received; those that have not been are in memory. A frame that has been is freed before
`ar9170_async_rx` returns. When the scheduler goes on, all frames are handed over. -/
structure Rx.Served (s : Rx) : Prop where
  distinct : (s.stored.map Frame.skb).Nodup
  given : s.given = (s.stored.take s.given.length).map Frame.whole
  waiting : ∀ f ∈ s.stored.drop s.given.length, Intact s.heap f
  freed : ∀ f ∈ s.stored.take (s.given.length - 1), Freed s.heap f
  returned : s.pc = .idle → ∀ f ∈ s.stored.take s.given.length, Freed s.heap f
  ends : ∃ n s', Rx.schedule n s = .ok s' ∧ s'.stored = s.stored ∧
    s'.given = s.stored.map Frame.whole ∧ ∀ f ∈ s.stored, Freed s'.heap f

/-- The queue leads to the stored frames, but for those that have been handed over and
taken out. -/
def Rx.Leads (s : Rx) : Prop :=
  ∃ n l, Holds s.heap s.queue l ∧ l.map Prod.snd = (s.stored.drop n).map Frame.skb ∧
    n ≤ s.given.length ∧ s.given.length ≤ n + 1

/-- In all states of a run the stored frames are served, every MPDU is stored or nothing
is done, and no step is a fault. -/
def Rx.servedAll : List Event → Rx → Prop
  | [], s => s.Served
  | e :: es, s => s.Served ∧
      (∀ buf len, e = .mpdu buf len → Atomic s.queue buf len s.heap) ∧
      ∃ s', s.step e = .ok s' ∧ servedAll es s'

/-- Every MPDU of the run meets the condition. -/
def Rx.readyAll : List Event → Rx → Prop
  | [], _ => True
  | e :: es, s => (∀ buf len, e = .mpdu buf len → Ready s.queue len s.heap) ∧
      ∀ s', s.step e = .ok s' → readyAll es s'

/-- Other code behaves as it should in the whole run. -/
def Rx.fitsAll : List Event → Rx → Prop
  | [], _ => True
  | e :: es, s => s.Fits e ∧ ∀ s', s.step e = .ok s' → fitsAll es s'

variable {h h' : Heap (Block Item)} {q : Ptr} {l : List (ℕ × ℕ)} {buf : ℕ → UInt8} {len : ℤ}

/-! ### The invariant

The stored frames are in three parts: `gone` has been freed, `now` is the one that has been
handed over and is not freed yet, if any, and `rest` is waiting. -/

/-- How far the scheduler is with the frame of `now`, or with the first one of `rest`. -/
def AtPc (h : Heap (Block Item)) : Pc → List Frame → List Frame → Prop
  | .idle, now, _ => now = []
  | .called, now, rest => now = [] ∧ rest ≠ []
  | .got v, now, rest => now = [] ∧ ∃ f tl, rest = f :: tl ∧ f.skb = v
  | .handled v, now, _ => ∃ f, now = [f] ∧ f.skb = v ∧ Intact h f
  | .released v, now, _ => ∃ f, now = [f] ∧ f.skb = v ∧ h.get f.data = none ∧
      h.get f.skb = some (.payload (.skBuff (some f.data) f.content.length))
  | .cleared, now, _ => ∃ f, now = [f] ∧ h.get f.data = none ∧
      h.get f.skb = some (.payload (.skBuff none f.content.length))

structure Inv (s : Rx) (gone now rest : List Frame) : Prop where
  stored : s.stored = gone ++ (now ++ rest)
  given : s.given = (gone ++ now).map Frame.whole
  list : ∃ l, Holds s.heap s.queue l ∧ l.map Prod.snd = (now ++ rest).map Frame.skb
  short : (now ++ rest).length ≤ maxPendingRxPktQueueLen
  skbs : (s.stored.map Frame.skb).Nodup
  datas : ((now ++ rest).map Frame.data).Nodup
  below : ∀ f ∈ s.stored, f.skb < s.heap.bound ∧ f.data < s.heap.bound
  intact : ∀ f ∈ rest, Intact s.heap f
  freed : ∀ f ∈ gone, Freed s.heap f
  pc : AtPc s.heap s.pc now rest

variable {s : Rx} {gone now rest : List Frame}

/-- What the scheduler has to do is a matter of the blocks of the frames. -/
theorem AtPc.frame {pc : Pc} (hat : AtPc h pc now rest)
    (hsame : ∀ f ∈ now, h'.get f.skb = h.get f.skb ∧ h'.get f.data = h.get f.data) :
    AtPc h' pc now rest := by
  cases pc with
  | idle => exact hat
  | called => exact hat
  | got v => exact hat
  | handled v =>
      obtain ⟨f, rfl, hv, hskb, tl, hdata⟩ := hat
      obtain ⟨hs, hd⟩ := hsame f (List.mem_singleton_self f)
      exact ⟨f, rfl, hv, hs.trans hskb, tl, hd.trans hdata⟩
  | released v =>
      obtain ⟨f, rfl, hv, hdata, hskb⟩ := hat
      obtain ⟨hs, hd⟩ := hsame f (List.mem_singleton_self f)
      exact ⟨f, rfl, hv, hd.trans hdata, hs.trans hskb⟩
  | cleared =>
      obtain ⟨f, rfl, hdata, hskb⟩ := hat
      obtain ⟨hs, hd⟩ := hsame f (List.mem_singleton_self f)
      exact ⟨f, rfl, hd.trans hdata, hs.trans hskb⟩

theorem AtPc.more {pc : Pc} (hat : AtPc h pc now rest) (more : List Frame) :
    AtPc h pc now (rest ++ more) := by
  cases pc with
  | called => exact ⟨hat.1, by simp [hat.2]⟩
  | got v =>
      obtain ⟨hnow, f, tl, rfl, hv⟩ := hat
      exact ⟨hnow, f, tl ++ more, rfl, hv⟩
  | idle => exact hat
  | handled v => exact hat
  | released v => exact hat
  | cleared => exact hat

theorem Intact.frame {f : Frame} (hf : Intact h f)
    (hsame : h'.get f.skb = h.get f.skb ∧ h'.get f.data = h.get f.data) : Intact h' f := by
  obtain ⟨hskb, tl, hdata⟩ := hf
  exact ⟨hsame.1.trans hskb, tl, hsame.2.trans hdata⟩

/-- Something that leaves the blocks of the frames alone, and the list. -/
theorem Inv.frame (hi : Inv s gone now rest) {q' : Ptr}
    (hlist : ∃ l, Holds h' q' l ∧ l.map Prod.snd = (now ++ rest).map Frame.skb)
    (hbound : s.heap.bound ≤ h'.bound)
    (hsame : ∀ f ∈ s.stored, h'.get f.skb = s.heap.get f.skb ∧
      h'.get f.data = s.heap.get f.data) :
    Inv { s with queue := q', heap := h' } gone now rest where
  stored := hi.stored
  given := hi.given
  list := hlist
  short := hi.short
  skbs := hi.skbs
  datas := hi.datas
  below f hf := ⟨Nat.lt_of_lt_of_le (hi.below f hf).1 hbound,
    Nat.lt_of_lt_of_le (hi.below f hf).2 hbound⟩
  intact f hf := (hi.intact f hf).frame (hsame f (by simp [hi.stored, hf]))
  freed f hf := by
    obtain ⟨hs, hd⟩ := hsame f (by simp [hi.stored, hf])
    exact ⟨hs.trans (hi.freed f hf).1, hd.trans (hi.freed f hf).2⟩
  pc := hi.pc.frame fun f hf => hsame f (by simp [hi.stored, hf])

theorem AtPc.block {pc : Pc} {f : Frame} (hat : AtPc h pc now rest) (hf : f ∈ now) :
    (∃ c, h.get f.skb = some (.payload c)) ∧
      (h.get f.data = none ∨ ∃ c, h.get f.data = some (.payload c)) := by
  cases pc with
  | idle =>
      obtain rfl : now = [] := hat
      cases hf
  | called =>
      obtain ⟨rfl, -⟩ := hat
      cases hf
  | got v =>
      obtain ⟨rfl, -⟩ := hat
      cases hf
  | handled v =>
      obtain ⟨g, rfl, -, hskb, tl, hdata⟩ := hat
      obtain rfl := List.mem_singleton.mp hf
      exact ⟨⟨_, hskb⟩, .inr ⟨_, hdata⟩⟩
  | released v =>
      obtain ⟨g, rfl, -, hdata, hskb⟩ := hat
      obtain rfl := List.mem_singleton.mp hf
      exact ⟨⟨_, hskb⟩, .inl hdata⟩
  | cleared =>
      obtain ⟨g, rfl, hdata, hskb⟩ := hat
      obtain rfl := List.mem_singleton.mp hf
      exact ⟨⟨_, hskb⟩, .inl hdata⟩

/-- The blocks of the frames are in use, with no list node in them, or have been freed. -/
theorem Inv.block {f : Frame} (hi : Inv s gone now rest) (hf : f ∈ s.stored) :
    (s.heap.get f.skb = none ∨ ∃ c, s.heap.get f.skb = some (.payload c)) ∧
      (s.heap.get f.data = none ∨ ∃ c, s.heap.get f.data = some (.payload c)) := by
  rw [hi.stored, List.mem_append, List.mem_append] at hf
  rcases hf with hgone | hnow | hrest
  · exact ⟨.inl (hi.freed f hgone).1, .inl (hi.freed f hgone).2⟩
  · obtain ⟨hskb, hdata⟩ := hi.pc.block hnow
    exact ⟨.inr hskb, hdata⟩
  · obtain ⟨hskb, tl, hdata⟩ := hi.intact f hrest
    exact ⟨.inr ⟨_, hskb⟩, .inr ⟨_, hdata⟩⟩

theorem Inv.same {f : Frame} (hi : Inv s gone now rest) (hf : f ∈ s.stored)
    (hothers : ∀ a c, s.heap.get a = some (.payload c) → h'.get a = s.heap.get a)
    (hlater : Later s.heap h') :
    h'.get f.skb = s.heap.get f.skb ∧ h'.get f.data = s.heap.get f.data := by
  obtain ⟨hskb, hdata⟩ := hi.block hf
  obtain ⟨hltskb, hltdata⟩ := hi.below f hf
  constructor
  · rcases hskb with hnone | ⟨c, hc⟩
    · exact (hlater.dead _ hltskb hnone).trans hnone.symm
    · exact hothers _ c hc
  · rcases hdata with hnone | ⟨c, hc⟩
    · exact (hlater.dead _ hltdata hnone).trans hnone.symm
    · exact hothers _ c hc

/-- An MPDU that is stored waits behind the others. -/
theorem Inv.push {q' : Ptr} {f : Frame} (hi : Inv s gone now rest)
    (hmap : l.map Prod.snd = (now ++ rest).map Frame.skb)
    (hroom : l.length < maxPendingRxPktQueueLen) (hst : Stores s.heap l buf len h' q' f)
    (hf : f = ⟨s.heap.bound, s.heap.bound + 1, received buf len⟩) :
    Inv { s with queue := q', heap := h', stored := s.stored ++ [f] } gone now
      (rest ++ [f]) := by
  have hsame := fun g hg => hi.same (f := g) hg hst.others hst.later
  have hlen : l.length = (now ++ rest).length := by
    have hlen := congrArg List.length hmap
    rwa [List.length_map, List.length_map] at hlen
  have hskb : f.skb = s.heap.bound := by rw [hf]
  have hdata : f.data = s.heap.bound + 1 := by rw [hf]
  obtain ⟨tl, hcopy⟩ := hst.copy
  refine
    { stored := by simp [hi.stored]
      given := hi.given
      list := ?_
      short := ?_
      skbs := ?_
      datas := ?_
      below := ?_
      intact := ?_
      freed := fun g hg => ?_
      pc := (hi.pc.frame fun g hg => hsame g (by simp [hi.stored, hg])).more _ }
  · obtain ⟨b, hlist, -⟩ := hst.list
    exact ⟨_, hlist, by rw [List.map_append, hmap]; simp⟩
  · rw [← List.append_assoc, List.length_append, ← hlen]
    exact hroom
  · rw [List.map_append, List.nodup_append]
    refine ⟨hi.skbs, by simp, fun a ha b hb => ?_⟩
    obtain ⟨g, hg, rfl⟩ := List.mem_map.mp ha
    rw [List.map_singleton, List.mem_singleton] at hb
    rw [hb, hskb]
    exact Nat.ne_of_lt (hi.below g hg).1
  · rw [← List.append_assoc, List.map_append, List.nodup_append]
    refine ⟨hi.datas, by simp, fun a ha b hb => ?_⟩
    obtain ⟨g, hg, rfl⟩ := List.mem_map.mp ha
    rw [List.map_singleton, List.mem_singleton] at hb
    rw [hb, hdata]
    have hmem : g ∈ s.stored := by
      rw [hi.stored]
      exact List.mem_append_right gone hg
    exact Nat.ne_of_lt (Nat.lt_succ_of_lt (hi.below g hmem).2)
  · intro g hg
    rcases List.mem_append.mp hg with hg | hg
    · exact ⟨Nat.lt_of_lt_of_le (hi.below g hg).1 hst.later.bound,
        Nat.lt_of_lt_of_le (hi.below g hg).2 hst.later.bound⟩
    · rw [List.mem_singleton.mp hg]
      exact ⟨Heap.lt_bound hst.skb, Heap.lt_bound hcopy⟩
  · intro g hg
    rcases List.mem_append.mp hg with hg | hg
    · exact (hi.intact g hg).frame (hsame g (by simp [hi.stored, hg]))
    · obtain rfl := List.mem_singleton.mp hg
      have hcontent : g.content = received buf len := by rw [hf]
      refine ⟨?_, tl, hcontent ▸ hcopy⟩
      rw [hst.skb, hcontent]
      simp [received]
  · obtain ⟨hs, hd⟩ := hsame g (by simp [hi.stored, hg])
    exact ⟨hs.trans (hi.freed g hg).1, hd.trans (hi.freed g hg).2⟩

theorem Inv.length_lt (hi : Inv s gone now rest) {l : List (ℕ × ℕ)}
    (hmap : l.map Prod.snd = (now ++ rest).map Frame.skb) : l.length < 2 ^ 16 := by
  have hlen := congrArg List.length hmap
  rw [List.length_map, List.length_map] at hlen
  have hshort := hi.short
  unfold maxPendingRxPktQueueLen at hshort
  omega

/-- A received MPDU waits behind the others, where there is room and memory for it. -/
theorem Inv.step_mpdu (hi : Inv s gone now rest) :
    ∃ s', s.step (.mpdu buf len) = .ok s' ∧
      s'.stored.map Frame.content = s.stored.map Frame.content ++
        (if Takes s.queue len s.heap then [received buf len] else []) ∧
      ∃ rest', Inv s' gone now rest' := by
  obtain ⟨l, hl, hmap⟩ := hi.list
  have hshort := hi.length_lt hmap
  have htakes : Takes s.queue len s.heap ↔ 0 < len ∧ l.length < maxPendingRxPktQueueLen ∧
      s.heap.outcome s.heap.requests = true ∧ HasMemory s.heap s.queue l :=
    takes_iff hl hshort
  have hw : Wp (scheduleHandleMpdu s.queue buf len)
      (fun r h' => (r.2.toList.map Frame.content =
          if Takes s.queue len s.heap then [received buf len] else []) ∧
        ∃ rest', Inv { s with queue := r.1, heap := h', stored := s.stored ++ r.2.toList }
          gone now rest') s.heap := by
    refine wp_scheduleHandleMpdu hl hshort (fun h1 hidle hsame hlater => ⟨?_, rest, ?_⟩)
      (fun h1 hpos hroom hok hmem hl1 hold hlater _ => ⟨?_, rest, ?_⟩)
      fun h1 q1 hpos hroom hok hmem hst => ⟨?_, _, hi.push hmap hroom hst rfl⟩
    · rw [if_neg]
      · rfl
      · intro ht
        obtain ⟨hpos, hroom, hok, -⟩ := htakes.mp ht
        rcases hidle with hle | hfull | hno
        · exact absurd hle (Int.not_le.mpr hpos)
        · exact absurd hfull (Nat.not_le.mpr hroom)
        · rw [hok] at hno
          cases hno
    · simp only [Option.toList_none, List.append_nil]
      refine hi.frame ⟨l, hl.frame (fun a _ _ _ => hsame a) fun x hx => ?_, hmap⟩ hlater.bound
        fun f _ => ⟨hsame _, hsame _⟩
      obtain ⟨c, hc⟩ := hl.live hx
      exact ⟨c, (hsame _).trans hc⟩
    · rw [if_neg fun ht => hmem (htakes.mp ht).2.2.2]
      rfl
    · -- the blocks that are left behind are none of the queue
      simp only [Option.toList_none, List.append_nil]
      exact hi.frame ⟨l, hl1, hmap⟩ hlater.bound fun f hf =>
        hi.same hf (fun a c ha => (hold a _ ha).trans ha.symm) hlater
    · rw [if_pos (htakes.mpr ⟨hpos, hroom, hok, hmem⟩)]
      rfl
  obtain ⟨r, h', heq, hcontent, hpost⟩ := hw
  refine ⟨_, by rw [Rx.step, heq], ?_, hpost⟩
  rw [List.map_append, hcontent]

/-- Other code leaves everything as it is. -/
theorem Inv.step_other (hi : Inv s gone now rest) (hfits : s.Fits (.other h')) :
    ∃ s', s.step (.other h') = .ok s' ∧ Inv s' gone now rest := by
  obtain ⟨hlater, howned⟩ := hfits
  obtain ⟨l, hl, hmap⟩ := hi.list
  have hstored : ∀ f ∈ s.stored, h'.get f.skb = s.heap.get f.skb ∧
      h'.get f.data = s.heap.get f.data := fun f hf =>
    ⟨howned _ (.inr (.inr ⟨f, hf, .inl rfl⟩)), howned _ (.inr (.inr ⟨f, hf, .inr rfl⟩))⟩
  refine ⟨_, rfl, hi.frame ⟨l, ?_, hmap⟩ hlater.bound hstored⟩
  rcases hl with hnil | ⟨root, hq, hs⟩
  · exact .inl hnil
  · refine .inr ⟨root, hq, hs.frame_nodes (howned root (.inl hq)) (fun x hx => ?_)
      fun x hx => ?_⟩
    · exact howned _ (.inr (.inl ⟨l, .inr ⟨root, hq, hs⟩, List.mem_map_of_mem hx⟩))
    · obtain ⟨c, hc⟩ := hs.live x hx
      have hmem : x.2 ∈ (now ++ rest).map Frame.skb := hmap ▸ List.mem_map_of_mem hx
      obtain ⟨f, hf, heq⟩ := List.mem_map.mp hmem
      have hf' : f ∈ s.stored := by
        rw [hi.stored]
        exact List.mem_append_right gone hf
      rw [← heq] at hc ⊢
      exact ⟨c, (hstored f hf').1.trans hc⟩

/-! ### Steps of the scheduler -/

/-- The steps that are left until the queue is empty. -/
def turns : Pc → ℕ → ℕ
  | .idle, n => 6 * n
  | .called, n => 6 * n - 1
  | .got _, n => 6 * n - 2
  | .handled _, n => 6 * n + 3
  | .released _, n => 6 * n + 2
  | .cleared, n => 6 * n + 1

/-- After the step the invariant holds, with one step less to go. -/
def Proceeds (s : Rx) (rest : List Frame) (t : Turn) (h' : Heap (Block Item)) : Prop :=
  ∃ gone' now' rest', Inv (s.after t h') gone' now' rest' ∧
    turns t.pc rest'.length = turns s.pc rest.length - 1

/-- Only the scheduler has moved. -/
theorem Inv.goto {pc : Pc} (hi : Inv s gone now rest) (hat : AtPc s.heap pc now rest) :
    Inv (s.after ⟨s.queue, pc, none⟩ s.heap) gone now rest where
  stored := hi.stored
  given := (List.append_nil s.given).trans hi.given
  list := hi.list
  short := hi.short
  skbs := hi.skbs
  datas := hi.datas
  below := hi.below
  intact := hi.intact
  freed := hi.freed
  pc := hat

/-- A block of the frame that is worked on has changed. -/
theorem Inv.touch {f : Frame} {a : ℕ} {c : Item} {pc : Pc} (hi : Inv s gone [f] rest)
    (ha : s.heap.get a = some (.payload c)) (hrest : ∀ g ∈ rest, g.skb ≠ a ∧ g.data ≠ a)
    (hget : ∀ x, x ≠ a → h'.get x = s.heap.get x) (hbound : h'.bound = s.heap.bound)
    (hskb : ∃ c, h'.get f.skb = some (.payload c)) (hat : AtPc h' pc [f] rest) :
    Inv (s.after ⟨s.queue, pc, none⟩ h') gone [f] rest where
  stored := hi.stored
  given := (List.append_nil s.given).trans hi.given
  list := by
    obtain ⟨l, hl, hmap⟩ := hi.list
    refine ⟨l, hl.frame (fun x val next hx => hget x ?_) fun x hx => ?_, hmap⟩
    · rintro rfl
      rw [ha] at hx
      cases hx
    · have hmem : x.2 ∈ ([f] ++ rest).map Frame.skb := hmap ▸ List.mem_map_of_mem hx
      obtain ⟨g, hg, heq⟩ := List.mem_map.mp hmem
      rw [← heq]
      rcases List.mem_cons.mp hg with rfl | hg
      · exact hskb
      · exact ⟨_, (hget _ (hrest g hg).1).trans (hi.intact g hg).1⟩
  short := hi.short
  skbs := hi.skbs
  datas := hi.datas
  below g hg := by
    have hb : (s.after ⟨s.queue, pc, none⟩ h').heap.bound = s.heap.bound := hbound
    rw [hb]
    exact hi.below g hg
  intact g hg := (hi.intact g hg).frame ⟨hget _ (hrest g hg).1, hget _ (hrest g hg).2⟩
  freed g hg := by
    have hne : ∀ x, s.heap.get x = none → h'.get x = none := by
      intro x hx
      refine (hget x ?_).trans hx
      rintro rfl
      rw [ha] at hx
      cases hx
    exact ⟨hne _ (hi.freed g hg).1, hne _ (hi.freed g hg).2⟩
  pc := hat

theorem Inv.mem_stored {f : Frame} (hi : Inv s gone now rest) (hf : f ∈ now ++ rest) :
    f ∈ s.stored := by
  rw [hi.stored]
  exact List.mem_append_right gone hf

/-- The frames behind the one that is worked on have other blocks. -/
theorem Inv.ne {f g : Frame} (hi : Inv s gone [f] rest) (hg : g ∈ rest) :
    g.skb ≠ f.skb ∧ g.data ≠ f.data := by
  have hskbs := hi.skbs
  have hdatas := hi.datas
  rw [hi.stored, List.map_append, List.nodup_append] at hskbs
  have hskbs' := hskbs.2.1
  rw [List.singleton_append, List.map_cons, List.nodup_cons] at hskbs' hdatas
  constructor
  · intro heq
    exact hskbs'.1 (heq ▸ List.mem_map_of_mem hg)
  · intro heq
    exact hdatas.1 (heq ▸ List.mem_map_of_mem hg)

theorem Holds.wp_isEmpty (hl : Holds h q l) :
    Wp (LinkedList.isEmpty q) (fun b h' => h' = h ∧ b = decide (l = [])) h := by
  rcases hl with ⟨rfl, rfl⟩ | ⟨root, rfl, hs⟩
  · exact Wp.pure ⟨rfl, rfl⟩
  · exact LinkedList.wp_isEmpty_shape hs

theorem Holds.wp_get (hl : Holds h q l) :
    Wp (LinkedList.get q) (fun p h' => h' = h ∧ p = l.head?.map Prod.snd) h := by
  rcases hl with ⟨rfl, rfl⟩ | ⟨root, rfl, hs⟩
  · exact Wp.pure ⟨rfl, rfl⟩
  · exact LinkedList.wp_get hs

theorem Inv.wp_idle (hi : Inv s gone now rest) (hpc : s.pc = .idle) :
    Wp (asyncRx s.queue .idle) (Proceeds s rest) s.heap := by
  obtain ⟨l, hl, hmap⟩ := hi.list
  have hnow : now = [] := by
    have hat := hi.pc
    rwa [hpc] at hat
  subst hnow
  refine Wp.bind (hl.wp_isEmpty.mono fun b h' hb => Wp.pure ?_)
  obtain ⟨rfl, rfl⟩ := hb
  cases rest with
  | nil =>
      obtain rfl : l = [] := List.map_eq_nil_iff.mp hmap
      exact ⟨gone, [], [], hi.goto rfl, by rw [hpc]; rfl⟩
  | cons f tl =>
      have hne : l ≠ [] := by
        rintro rfl
        cases hmap
      have hno : decide (l = []) = false := decide_eq_false hne
      rw [hno]
      exact ⟨gone, [], f :: tl, hi.goto ⟨rfl, List.cons_ne_nil f tl⟩, by rw [hpc]; rfl⟩

theorem Inv.wp_called (hi : Inv s gone now rest) (hpc : s.pc = .called) :
    Wp (asyncRx s.queue .called) (Proceeds s rest) s.heap := by
  obtain ⟨l, hl, hmap⟩ := hi.list
  have hat : now = [] ∧ rest ≠ [] := by
    have hat := hi.pc
    rwa [hpc] at hat
  obtain ⟨rfl, hrest⟩ := hat
  refine Wp.bind (hl.wp_get.mono fun p h' hp => Wp.pure ?_)
  obtain ⟨rfl, rfl⟩ := hp
  cases rest with
  | nil => exact absurd rfl hrest
  | cons f tl =>
      have hhead : l.head?.map Prod.snd = some f.skb := by
        rw [← List.head?_map, hmap]
        rfl
      rw [hhead]
      exact ⟨gone, [], f :: tl, hi.goto ⟨rfl, f, tl, rfl, rfl⟩, by rw [hpc]; rfl⟩

theorem Inv.wp_got {v : ℕ} (hi : Inv s gone now rest) (hpc : s.pc = .got v) :
    Wp (asyncRx s.queue (.got v)) (Proceeds s rest) s.heap := by
  have hat : now = [] ∧ ∃ f tl, rest = f :: tl ∧ f.skb = v := by
    have hat := hi.pc
    rwa [hpc] at hat
  obtain ⟨rfl, f, tl, rfl, rfl⟩ := hat
  obtain ⟨hskb, bs, hdata⟩ := hi.intact f List.mem_cons_self
  refine Wp.bind (Wp.bind (wp_loadSkBuff hskb (Wp.bind (wp_loadBytes hdata (Wp.pure
    (Wp.pure ?_))))))
  rw [List.take_left]
  refine ⟨gone, [f], tl, ?_, ?_⟩
  · exact
      { stored := hi.stored
        given := by simp [Rx.after, hi.given, Frame.whole]
        list := hi.list
        short := hi.short
        skbs := hi.skbs
        datas := hi.datas
        below := hi.below
        intact := fun g hg => hi.intact g (List.mem_cons_of_mem f hg)
        freed := hi.freed
        pc := ⟨f, rfl, rfl, hskb, bs, hdata⟩ }
  · rw [hpc, List.length_cons]
    simp only [turns]
    omega

theorem Inv.wp_handled {v : ℕ} (hi : Inv s gone now rest) (hpc : s.pc = .handled v) :
    Wp (asyncRx s.queue (.handled v)) (Proceeds s rest) s.heap := by
  have hat : ∃ f, now = [f] ∧ f.skb = v ∧ Intact s.heap f := by
    have hat := hi.pc
    rwa [hpc] at hat
  obtain ⟨f, rfl, rfl, hskb, bs, hdata⟩ := hat
  refine Wp.bind (wp_loadSkBuff hskb ?_)
  simp only [if_neg (Option.some_ne_none f.data)]
  refine Wp.bind (Wp.free hdata (Wp.pure ?_))
  have hne : ∀ g : Frame, ∀ n p, s.heap.get g.skb = some (.payload (.skBuff p n)) →
      g.skb ≠ f.data := by
    intro g n p hg heq
    rw [heq, hdata] at hg
    cases hg
  have hskb' : (s.heap.set f.data none (Heap.lt_bound hdata)).get f.skb = s.heap.get f.skb :=
    Heap.set_get_of_ne _ _ _ (hne f _ _ hskb)
  refine ⟨gone, [f], rest, hi.touch hdata (fun g hg => ?_)
    (fun x hx => Heap.set_get_of_ne _ _ _ hx) rfl ⟨_, hskb'.trans hskb⟩ ?_, by rw [hpc]; rfl⟩
  · exact ⟨hne g _ _ (hi.intact g hg).1, (hi.ne hg).2⟩
  · exact ⟨f, rfl, rfl, Heap.set_get_self _ _ _ _, hskb'.trans hskb⟩

theorem Inv.wp_released {v : ℕ} (hi : Inv s gone now rest) (hpc : s.pc = .released v) :
    Wp (asyncRx s.queue (.released v)) (Proceeds s rest) s.heap := by
  have hat : ∃ f, now = [f] ∧ f.skb = v ∧ s.heap.get f.data = none ∧
      s.heap.get f.skb = some (.payload (.skBuff (some f.data) f.content.length)) := by
    have hat := hi.pc
    rwa [hpc] at hat
  obtain ⟨f, rfl, rfl, hdata, hskb⟩ := hat
  refine Wp.bind (wp_storeData hskb (Wp.pure ?_))
  refine ⟨gone, [f], rest, hi.touch hskb (fun g hg => ⟨(hi.ne hg).1, ?_⟩)
    (fun x hx => Heap.set_get_of_ne _ _ _ hx) rfl ⟨_, Heap.set_get_self _ _ _ _⟩ ?_,
    by rw [hpc]; rfl⟩
  · intro heq
    obtain ⟨-, bs, hbs⟩ := hi.intact g hg
    rw [heq, hskb] at hbs
    cases hbs
  · refine ⟨f, rfl, (Heap.set_get_of_ne _ _ _ ?_).trans hdata, Heap.set_get_self _ _ _ _⟩
    intro heq
    rw [heq, hskb] at hdata
    cases hdata

theorem Inv.wp_cleared (hi : Inv s gone now rest) (hpc : s.pc = .cleared) :
    Wp (asyncRx s.queue .cleared) (Proceeds s rest) s.heap := by
  have hat : ∃ f, now = [f] ∧ s.heap.get f.data = none ∧
      s.heap.get f.skb = some (.payload (.skBuff none f.content.length)) := by
    have hat := hi.pc
    rwa [hpc] at hat
  obtain ⟨f, rfl, hdata, hskb⟩ := hat
  obtain ⟨l, hl, hmap⟩ := hi.list
  rcases hl with ⟨-, rfl⟩ | ⟨root, hq, hs⟩
  · cases hmap
  rw [hq]
  refine Wp.bind ((LinkedList.wp_removeFirst hs).mono fun p h' hp => Wp.pure ?_)
  obtain ⟨root', rfl, -, hr⟩ := hp
  rw [hmap] at hr
  obtain ⟨l', hs', hmap', -⟩ := hr.shape
  have hdead : ∀ a, a < s.heap.bound → s.heap.get a = none → h'.get a = none := hr.dead
  refine ⟨gone ++ [f], [], rest, ?_, by rw [hpc]; rfl⟩
  exact
    { stored := by simp [Rx.after, hi.stored]
      given := by simp [Rx.after, hi.given]
      list := ⟨l', .inr ⟨root', rfl, hs'⟩, hmap'⟩
      short := Nat.le_trans (by simp) hi.short
      skbs := hi.skbs
      datas := (List.nodup_cons.mp hi.datas).2
      below := fun g hg => ⟨Nat.lt_of_lt_of_le (hi.below g hg).1 hr.bound,
        Nat.lt_of_lt_of_le (hi.below g hg).2 hr.bound⟩
      intact := fun g hg => by
        obtain ⟨hgskb, bs, hgdata⟩ := hi.intact g hg
        refine (hi.intact g hg).frame ⟨hr.payload hs hgskb ?_, hr.payload hs hgdata ?_⟩
        · simpa using (hi.ne hg).1
        · intro hmem
          obtain heq : g.data = f.skb := by simpa using hmem
          rw [heq, hskb] at hgdata
          cases hgdata
      freed := fun g hg => by
        rcases List.mem_append.mp hg with hg | hg
        · have hbelow := hi.below g (by simp [hi.stored, hg])
          exact ⟨hdead _ hbelow.1 (hi.freed g hg).1, hdead _ hbelow.2 (hi.freed g hg).2⟩
        · obtain rfl := List.mem_singleton.mp hg
          refine ⟨(hr.freed g.skb (by simp)).2, hdead _ ?_ hdata⟩
          exact (hi.below g (hi.mem_stored List.mem_cons_self)).2
      pc := rfl }

/-- A step of the scheduler. -/
theorem Inv.step_scheduler (hi : Inv s gone now rest) :
    ∃ s', s.step .scheduler = .ok s' ∧ s'.stored = s.stored ∧ ∃ gone' now' rest',
      Inv s' gone' now' rest' ∧ turns s'.pc rest'.length = turns s.pc rest.length - 1 := by
  have hw : Wp (asyncRx s.queue s.pc) (Proceeds s rest) s.heap := by
    cases hpc : s.pc with
    | idle => exact hi.wp_idle hpc
    | called => exact hi.wp_called hpc
    | got v => exact hi.wp_got hpc
    | handled v => exact hi.wp_handled hpc
    | released v => exact hi.wp_released hpc
    | cleared => exact hi.wp_cleared hpc
  obtain ⟨t, h', heq, gone', now', rest', hi', hturns⟩ := hw
  exact ⟨s.after t h', by rw [Rx.step, heq], rfl, gone', now', rest', hi', hturns⟩

/-! ### All states of a run -/

theorem AtPc.length_le {pc : Pc} (hat : AtPc h pc now rest) : now.length ≤ 1 := by
  cases pc with
  | idle =>
      obtain rfl : now = [] := hat
      exact Nat.zero_le 1
  | called =>
      obtain ⟨rfl, -⟩ := hat
      exact Nat.zero_le 1
  | got v =>
      obtain ⟨rfl, -⟩ := hat
      exact Nat.zero_le 1
  | handled v =>
      obtain ⟨f, rfl, -⟩ := hat
      exact Nat.le_refl 1
  | released v =>
      obtain ⟨f, rfl, -⟩ := hat
      exact Nat.le_refl 1
  | cleared =>
      obtain ⟨f, rfl, -⟩ := hat
      exact Nat.le_refl 1

theorem AtPc.idle_of_turns {pc : Pc} (hat : AtPc h pc now rest)
    (hturns : turns pc rest.length = 0) : pc = .idle ∧ rest = [] := by
  cases pc with
  | idle =>
      refine ⟨rfl, List.eq_nil_of_length_eq_zero ?_⟩
      simp only [turns] at hturns
      omega
  | called =>
      have hpos := List.length_pos_iff.mpr hat.2
      simp only [turns] at hturns
      omega
  | got v =>
      obtain ⟨-, f, tl, rfl, -⟩ := hat
      rw [List.length_cons] at hturns
      simp only [turns] at hturns
      omega
  | handled v => cases hturns
  | released v => cases hturns
  | cleared => cases hturns

/-- When the scheduler goes on, the queue is emptied. -/
theorem Inv.ends {n : ℕ} (hi : Inv s gone now rest) (hn : turns s.pc rest.length = n) :
    ∃ n s', Rx.schedule n s = .ok s' ∧ s'.stored = s.stored ∧
      s'.given = s.stored.map Frame.whole ∧ ∀ f ∈ s.stored, Freed s'.heap f := by
  induction n generalizing s gone now rest with
  | zero =>
      obtain ⟨hpc, rfl⟩ := hi.pc.idle_of_turns hn
      have hnow : now = [] := by
        have hat := hi.pc
        rwa [hpc] at hat
      subst hnow
      have hstored : s.stored = gone := by simpa using hi.stored
      have hgiven : s.given = gone.map Frame.whole := by simpa using hi.given
      refine ⟨0, s, rfl, rfl, ?_, ?_⟩
      · rw [hgiven, hstored]
      · rw [hstored]
        exact hi.freed
  | succ n ih =>
      obtain ⟨s1, heq, hstored, gone', now', rest', hi', hturns⟩ := hi.step_scheduler
      obtain ⟨m, s', hrun, hstored', hgiven, hfreed⟩ := ih hi' (by omega)
      rw [hstored] at hstored' hgiven hfreed
      refine ⟨m + 1, s', ?_, hstored', hgiven, hfreed⟩
      simp only [Rx.schedule, heq]
      exact hrun

/-- Where the invariant holds the stored frames are served. -/
theorem Inv.served (hi : Inv s gone now rest) : s.Served := by
  have hlen : s.given.length = (gone ++ now).length := by rw [hi.given, List.length_map]
  have hsplit : s.stored = (gone ++ now) ++ rest := by rw [hi.stored, List.append_assoc]
  have htake : s.stored.take s.given.length = gone ++ now := by
    rw [hlen, hsplit, List.take_left]
  refine
    { distinct := hi.skbs
      given := by rw [htake, hi.given]
      waiting := fun f hf => ?_
      freed := fun f hf => ?_
      returned := fun hpc f hf => ?_
      ends := hi.ends rfl }
  · rw [hlen, hsplit, List.drop_left] at hf
    exact hi.intact f hf
  · refine hi.freed f ?_
    have hnow := hi.pc.length_le
    have hle : s.given.length - 1 ≤ gone.length := by
      rw [hlen, List.length_append]
      omega
    rw [hi.stored, List.take_append_of_le_length hle] at hf
    exact List.mem_of_mem_take hf
  · have hat := hi.pc
    rw [hpc] at hat
    obtain rfl : now = [] := hat
    rw [htake, List.append_nil] at hf
    exact hi.freed f hf

theorem Inv.leads (hi : Inv s gone now rest) : s.Leads := by
  obtain ⟨l, hl, hmap⟩ := hi.list
  have hlen : s.given.length = gone.length + now.length := by
    rw [hi.given, List.length_map, List.length_append]
  have hnow := hi.pc.length_le
  refine ⟨gone.length, l, hl, ?_, ?_, ?_⟩
  · rw [hmap, hi.stored, List.drop_left]
  · rw [hlen]
    exact Nat.le_add_right _ _
  · rw [hlen]
    exact Nat.add_le_add_left hnow _

theorem Inv.step {e : Event} (hi : Inv s gone now rest) (hfits : s.Fits e) :
    ∃ s', s.step e = .ok s' ∧ ∃ gone' now' rest', Inv s' gone' now' rest' := by
  cases e with
  | mpdu buf len =>
      have hstep : ∃ s', s.step (.mpdu buf len) = .ok s' ∧ _ ∧ ∃ rest', Inv s' gone now rest' :=
        hi.step_mpdu
      obtain ⟨s', heq, -, rest', hi'⟩ := hstep
      exact ⟨s', heq, gone, now, rest', hi'⟩
  | scheduler =>
      obtain ⟨s', heq, -, gone', now', rest', hi', -⟩ := hi.step_scheduler
      exact ⟨s', heq, gone', now', rest', hi'⟩
  | other h =>
      obtain ⟨s', heq, hi'⟩ := hi.step_other hfits
      exact ⟨s', heq, gone, now, rest, hi'⟩

theorem Inv.servedAll_iff {es : List Event} (hi : Inv s gone now rest)
    (hfits : Rx.fitsAll es s) : Rx.servedAll es s ↔ Rx.readyAll es s := by
  induction es generalizing s gone now rest with
  | nil => exact ⟨fun _ => trivial, fun _ => hi.served⟩
  | cons e es ih =>
      obtain ⟨hfit, hfits⟩ := hfits
      obtain ⟨l, hl, hmap⟩ := hi.list
      have hatomic : ∀ buf len, Atomic s.queue buf len s.heap ↔ Ready s.queue len s.heap :=
        fun buf len => atomic_iff hl (hi.length_lt hmap)
      constructor
      · rintro ⟨-, hstep, s1, heq, hrest⟩
        have hready : ∀ buf len, e = .mpdu buf len → Ready s.queue len s.heap :=
          fun buf len he => (hatomic buf len).mp (hstep buf len he)
        refine ⟨hready, fun s' heq' => ?_⟩
        obtain ⟨s2, heq2, gone', now', rest', hi'⟩ := hi.step hfit
        have hs1 : s1 = s' := Except.ok.inj (heq.symm.trans heq')
        have hs2 : s2 = s' := Except.ok.inj (heq2.symm.trans heq')
        exact (ih (hs2 ▸ hi') (hfits s' heq')).mp (hs1 ▸ hrest)
      · rintro ⟨hready, hrest⟩
        obtain ⟨s', heq, gone', now', rest', hi'⟩ := hi.step hfit
        exact ⟨hi.served, fun buf len he => (hatomic buf len).mpr (hready buf len he), s', heq,
          (ih hi' (hfits s' heq)).mpr (hrest s' heq)⟩

/-- The queue leads to these frames, which are in memory as they were received. -/
structure Queued (h : Heap (Block Item)) (q : Ptr) (fs : List Frame) : Prop where
  list : ∃ l, Holds h q l ∧ l.map Prod.snd = fs.map Frame.skb
  short : fs.length ≤ maxPendingRxPktQueueLen
  datas : (fs.map Frame.data).Nodup
  intact : ∀ f ∈ fs, Intact h f

/-- The driver with these frames in the queue, none of which has been looked at. -/
def Rx.start (q : Ptr) (h : Heap (Block Item)) (fs : List Frame) : Rx := ⟨q, h, .idle, fs, []⟩

theorem Queued.inv {fs : List Frame} (hq : Queued h q fs) : Inv (Rx.start q h fs) [] [] fs where
  stored := rfl
  given := rfl
  list := hq.list
  short := hq.short
  skbs := by
    obtain ⟨l, hl, hmap⟩ := hq.list
    have hnodup : (l.map Prod.snd).Nodup := by
      rcases hl with ⟨-, rfl⟩ | ⟨root, -, hs⟩
      · exact List.nodup_nil
      · exact hs.items
    rwa [hmap] at hnodup
  datas := hq.datas
  below f hf := by
    obtain ⟨hskb, tl, hdata⟩ := hq.intact f hf
    exact ⟨Heap.lt_bound hskb, Heap.lt_bound hdata⟩
  intact := hq.intact
  freed := List.forall_mem_nil _
  pc := rfl

/-- In a run everything is served, and every MPDU stored or dropped without a trace, if
and only if every MPDU meets the condition. -/
theorem served_iff (es : List Event) (q : Ptr) (h : Heap (Block Item)) (fs : List Frame)
    (hq : Queued h q fs) (hfits : Rx.fitsAll es (Rx.start q h fs)) :
    Rx.servedAll es (Rx.start q h fs) ↔ Rx.readyAll es (Rx.start q h fs) :=
  hq.inv.servedAll_iff hfits

/-- A heap with the root of an empty list. -/
def rootOnly (outcome : ℕ → Bool) : Heap (Block Item) :=
  Heap.push ⟨fun _ => none, 0, outcome, 0, fun _ _ => rfl⟩ (.node none none)

theorem holds_rootOnly (outcome : ℕ → Bool) : Holds (rootOnly outcome) (some 0) [] :=
  .inr ⟨0, rfl, LinkedList.shape_nil rfl⟩

/-- An MPDU of one byte, and the scheduler once. -/
def oneByte : List Event := [.mpdu (fun _ => 7) 1, .scheduler]

theorem queued_rootOnly (outcome : ℕ → Bool) : Queued (rootOnly outcome) (some 0) [] :=
  ⟨⟨[], holds_rootOnly outcome, rfl⟩, Nat.zero_le _, List.nodup_nil, List.forall_mem_nil _⟩

theorem served_iff_oneByte :
    Rx.servedAll oneByte (Rx.start (some 0) (rootOnly fun _ => true) []) ↔
      Rx.readyAll oneByte (Rx.start (some 0) (rootOnly fun _ => true) []) :=
  served_iff oneByte (some 0) _ [] (queued_rootOnly _)
    ⟨trivial, fun _ _ => ⟨trivial, fun _ _ => trivial⟩⟩

/-- The socket buffer is lost where there is no memory for the data, and both are where
there is none for the list. -/
theorem not_served :
    ¬ Rx.servedAll oneByte (Rx.start (some 0) (rootOnly fun n => decide (n ≠ 2)) []) ∧
    ¬ Rx.servedAll oneByte (Rx.start none (rootOnly fun n => decide (n ≠ 3)) []) := by
  constructor
  · intro hserved
    have hready := (atomic_iff (holds_rootOnly _) (Nat.zero_lt_succ _)).mp
      (hserved.2.1 _ _ rfl)
    unfold Ready at hready
    revert hready
    decide
  · intro hserved
    have hready := (atomic_iff (.inl ⟨rfl, rfl⟩) (Nat.zero_lt_succ _)).mp
      (hserved.2.1 _ _ rfl)
    unfold Ready at hready
    revert hready
    decide

end Calipso.Ar9170.RxQueue
