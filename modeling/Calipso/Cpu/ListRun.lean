import Calipso.Cpu.ListOps

/-!
# Whole lives of a list

A list is initialized and then worked on by a sequence of operations, the caller
keeping the root it is given each time. As long as each step meets the condition
of its operation, the list stands for the sequence that the operations on
sequences give, no step faults, and the payloads that are freed are those of the
operations that free.
-/

namespace Calipso

open Memory

namespace LinkedList

open HeapM

variable {π : Type}

/-- The operations of `linked_list.h` that change a list. -/
inductive Op
  | addTail (v : Nat) (maxPosition : Int)
  | addToFront (v : Nat)
  | removeFirst
  | popFirst
  | removeFirstDeep
  | removeElementAt (index : Nat)
  | moveToFront (index : Nat)
  | erase
  | eraseDeep
  deriving DecidableEq, Repr

namespace Op

/-- What the code does with the caller's root; the result is the root the caller
goes on with. -/
def apply (p : Ptr) : Op → M π Ptr
  | .addTail v maxPosition => do
      let _ ← LinkedList.addTail p (some v) maxPosition
      pure p
  | .addToFront v => LinkedList.addToFront p (some v)
  | .removeFirst => LinkedList.removeFirst p
  | .popFirst => LinkedList.popFirst p
  | .removeFirstDeep => LinkedList.removeFirstDeep p
  | .removeElementAt index => LinkedList.removeElementAt p index
  | .moveToFront index => LinkedList.moveToFront p index
  | .erase => do
      LinkedList.erase p
      pure p
  | .eraseDeep => LinkedList.eraseDeep p

/-- What the operation does to the sequence of payloads. -/
def spec (xs : List Nat) : Op → List Nat
  | .addTail v maxPosition => if (xs.length : Int) < maxPosition then xs ++ [v] else xs
  | .addToFront v => v :: xs
  | .removeFirst | .popFirst | .removeFirstDeep => xs.tail
  | .removeElementAt index => xs.eraseIdx index
  | .moveToFront index => rotateToFront xs index
  | .erase | .eraseDeep => []

/-- The payloads the operation frees. -/
def frees (xs : List Nat) : Op → List Nat
  | .removeFirst | .removeFirstDeep => xs.head?.toList
  | .erase | .eraseDeep => xs
  | _ => []

/-- The pointer is to a payload in use that the list does not hold yet. -/
def fresh (h : Heap (Block π)) (xs : List Nat) (v : Nat) : Bool :=
  (match h.get v with
  | some (.payload _) => true
  | _ => false) && v ∉ xs

/-- When the code does what the operation on sequences says. -/
def meets (h : Heap (Block π)) (xs : List Nat) (op : Op) : Bool :=
  decide ((op.spec xs).length < 2 ^ 16) && decide (xs.length < 2 ^ 16) &&
  match op with
  | .addTail v maxPosition => fresh h xs v &&
      if xs = [] then decide (0 < maxPosition)
      else !decide ((xs.length : Int) < maxPosition) || h.willAlloc
  | .addToFront v => fresh h xs v && (decide (xs = []) || h.willAlloc)
  | .removeFirst | .removeFirstDeep | .eraseDeep => true
  | .popFirst => decide (xs = [])
  | .removeElementAt index => decide (0 < index ∧ index < xs.length)
  | .moveToFront index => decide (index = 0) || (decide (index < xs.length) && h.willAlloc)
  | .erase => decide (xs.length ≤ 1)

end Op

/-- The operations in order. -/
def runOps : List Op → Ptr → M π Ptr
  | [], p => pure p
  | op :: ops, p => do
      let p' ← op.apply p
      runOps ops p'

def specs : List Op → List Nat → List Nat
  | [], xs => xs
  | op :: ops, xs => specs ops (op.spec xs)

def allFrees : List Op → List Nat → List Nat
  | [], _ => []
  | op :: ops, xs => op.frees xs ++ allFrees ops (op.spec xs)

/-- Every step meets the condition of its operation. -/
def meetsAll : List Op → Ptr → List Nat → Heap (Block π) → Bool
  | [], _, _, _ => true
  | op :: ops, p, xs, h => op.meets h xs &&
      match op.apply p h with
      | .ok (p', h') => meetsAll ops p' (op.spec xs) h'
      | .error _ => true

/-- The functions that read the list give back the sequence. -/
structure Reads (h : Heap (Block π)) (root : Nat) (xs : List Nat) : Prop where
  getLen : Wp (getLen (some root)) (fun k h' => h' = h ∧ k = xs.length) h
  getElementAt : ∀ i, Wp (getElementAt (some root) i) (fun q h' => h' = h ∧ q = xs[i]?) h
  isEmpty : Wp (isEmpty (some root)) (fun b h' => h' = h ∧ b = decide (xs = [])) h

variable {h : Heap (Block π)} {root : Nat} {l : List (Nat × Nat)}

theorem payload_of_fresh {xs : List Nat} {v : Nat} (hv : Op.fresh h xs v = true) :
    (∃ c, h.get v = some (.payload c)) ∧ v ∉ xs := by
  unfold Op.fresh at hv
  rw [Bool.and_eq_true, decide_eq_true_eq] at hv
  refine ⟨?_, hv.2⟩
  cases hget : h.get v with
  | none => simp [hget] at hv
  | some b =>
      cases b with
      | node val next => simp [hget] at hv
      | payload c => exact ⟨c, rfl⟩

/-- Where there is memory, `linked_list_add_tail` appends unless the list is full. -/
theorem addTail_spec {xs : List Nat} {v : Nat} {maxPosition : Int} {ok : Bool}
    (hcond : (if xs = [] then decide (0 < maxPosition)
      else !decide ((xs.length : Int) < maxPosition) || ok) = true) :
    linkedListAddTail xs v maxPosition.toNat ok = (Op.addTail v maxPosition).spec xs := by
  have htoNat : xs.length < maxPosition.toNat ↔ (xs.length : Int) < maxPosition := by omega
  simp only [linkedListAddTail, linkedListHasRoom, Op.spec, htoNat]
  by_cases hnil : xs = []
  · subst hnil
    simp only [if_true, decide_eq_true_eq] at hcond
    simp [hcond]
  · have hempty : xs.isEmpty = false := by simpa using hnil
    rw [if_neg hnil] at hcond
    by_cases hlt : (xs.length : Int) < maxPosition
    · have hok : ok = true := by simpa [hlt] using hcond
      simp [hlt, hok]
    · simp [hlt, hempty]

/-- One step refines the operation on sequences. -/
theorem wp_apply {op : Op} (hs : Shape h root l) (hm : op.meets h (l.map Prod.snd) = true) :
    Wp (op.apply (some root))
      (fun p h' => ∃ root', p = some root' ∧
        Refines h root l h' root' (op.spec (l.map Prod.snd)) (op.frees (l.map Prod.snd))) h := by
  simp only [Op.meets, Bool.and_eq_true, decide_eq_true_eq] at hm
  obtain ⟨⟨-, hlen⟩, hop⟩ := hm
  have hlen' : l.length < 2 ^ 16 := by simpa using hlen
  cases op with
  | addTail v maxPosition =>
      simp only [Bool.and_eq_true] at hop
      obtain ⟨⟨c, hv⟩, hnew⟩ := payload_of_fresh hop.1
      refine Wp.bind ((wp_addTail_sequence hs hv hnew).mono fun k h' hr => Wp.pure ?_)
      refine ⟨root, rfl, ?_⟩
      rw [addTail_spec hop.2] at hr
      exact hr
  | addToFront v =>
      simp only [Bool.and_eq_true, Bool.or_eq_true, decide_eq_true_eq] at hop
      obtain ⟨⟨c, hv⟩, hnew⟩ := payload_of_fresh hop.1
      refine (wp_addToFront hs hv hnew).mono fun r h' hr => ?_
      rw [if_pos (hop.2.imp List.map_eq_nil_iff.mp id)] at hr
      exact hr
  | removeFirst =>
      refine (wp_removeFirst hs).mono fun r h' hr => ?_
      obtain ⟨root', hr, -, href⟩ := hr
      exact ⟨root', hr, href⟩
  | popFirst =>
      obtain rfl : l = [] := List.map_eq_nil_iff.mp (of_decide_eq_true hop)
      exact (wp_popFirst_nil hs).mono fun r h' hr => ⟨root, hr⟩
  | removeFirstDeep => exact wp_removeFirstDeep hs
  | removeElementAt index =>
      rw [decide_eq_true_eq, List.length_map] at hop
      refine (wp_removeElementAt hs hlen' hop.1 hop.2).mono fun r h' hr => ?_
      exact ⟨root, hr.1, hr.2.2⟩
  | moveToFront index =>
      simp only [Bool.or_eq_true, Bool.and_eq_true, decide_eq_true_eq, List.length_map] at hop
      exact wp_moveToFront hs hlen' hop
  | erase =>
      rw [decide_eq_true_eq, List.length_map] at hop
      refine Wp.bind ((wp_erase hs hop).mono fun _ h' hr => Wp.pure ?_)
      exact ⟨root, rfl, hr⟩
  | eraseDeep => exact wp_eraseDeep hs

/-- A whole run refines the operations on sequences. -/
theorem wp_runOps {ops : List Op} (hs : Shape h root l)
    (hm : meetsAll ops (some root) (l.map Prod.snd) h = true) :
    Wp (runOps ops (some root))
      (fun p h' => ∃ root', p = some root' ∧
        Refines h root l h' root' (specs ops (l.map Prod.snd))
          (allFrees ops (l.map Prod.snd))) h := by
  induction ops generalizing h root l with
  | nil => exact Wp.pure ⟨root, rfl, hs.refines_same (fun _ => rfl) (Nat.le_refl _)⟩
  | cons op ops ih =>
      simp only [meetsAll, Bool.and_eq_true] at hm
      obtain ⟨p', h', hstep, root', rfl, hr⟩ := wp_apply hs hm.1
      obtain ⟨l', hs', hl', hhome⟩ := hr.shape
      have hrest := hm.2
      rw [hstep] at hrest
      simp only [← hl'] at hrest
      refine Wp.bind ⟨some root', h', hstep, ?_⟩
      refine (ih hs' hrest).mono fun p h'' hr' => ?_
      obtain ⟨root'', rfl, hr'⟩ := hr'
      rw [hl'] at hr'
      exact ⟨root'', rfl, hr.trans hhome hr'⟩

theorem Shape.reads {xs : List Nat} (hs : Shape h root l) (hl : l.map Prod.snd = xs)
    (hlen : xs.length < 2 ^ 16) : Reads h root xs := by
  subst hl
  rw [List.length_map] at hlen
  refine ⟨(wp_getLen hs).mono fun k h' hk => ?_, fun i => ?_,
    (wp_isEmpty_shape hs).mono fun b h' hb => ?_⟩
  · rw [List.length_map]
    exact ⟨hk.1, hk.2.trans (Nat.mod_eq_of_lt hlen)⟩
  · refine (wp_getElementAt hs hlen i).mono fun q h' hq => ?_
    rw [List.getElem?_map]
    exact hq
  · refine ⟨hb.1, hb.2.trans ?_⟩
    rw [decide_eq_decide]
    exact List.map_eq_nil_iff.symm

theorem specs_length_lt {ops : List Op} {p : Ptr} {xs : List Nat} (hxs : xs.length < 2 ^ 16)
    (hs : Shape h root l) (hl : l.map Prod.snd = xs) (hp : p = some root)
    (hm : meetsAll ops p xs h = true) : (specs ops xs).length < 2 ^ 16 := by
  induction ops generalizing h root l p xs with
  | nil => exact hxs
  | cons op ops ih =>
      subst hl hp
      simp only [meetsAll, Bool.and_eq_true] at hm
      obtain ⟨p', h', hstep, root', rfl, hr⟩ := wp_apply hs hm.1
      obtain ⟨l', hs', hl', -⟩ := hr.shape
      have hrest := hm.2
      rw [hstep] at hrest
      refine ih ?_ hs' hl' rfl hrest
      have hop := hm.1
      simp only [Op.meets, Bool.and_eq_true, decide_eq_true_eq] at hop
      exact hop.1.1

/-- `linked_list_init` makes an empty list where a node can be had, and nothing else. -/
theorem wp_init :
    Wp (init (π := π))
      (fun p h' =>
        if h.willAlloc then
          p = some h.bound ∧ Shape h' h.bound [] ∧ h'.bound = h.bound + 1 ∧
            h'.requests = h.requests + 1 ∧ h'.outcome = h.outcome ∧
            ∀ a, a ≠ h.bound → h'.get a = h.get a
        else p = none ∧ h'.bound = h.bound ∧ ∀ a, h'.get a = h.get a) h := by
  refine Wp.bind (Wp.malloc (fun hok => ?_) fun hno => ?_)
  · refine Wp.bind (wp_storeNext (v := none) (n := none) (by simp) ?_)
    refine Wp.bind (wp_storeVal (v := none) (n := none) (by simp) (Wp.pure ?_))
    rw [if_pos hok]
    refine ⟨rfl, shape_nil (by simp), rfl, rfl, rfl, fun a ha => ?_⟩
    rw [Heap.set_get_of_ne _ _ _ ha, Heap.set_get_of_ne _ _ _ ha, Heap.push_get_of_ne _ _ ha]
  · refine Wp.pure ?_
    rw [if_neg (by simp [hno])]
    exact ⟨rfl, rfl, fun _ => rfl⟩

/-- A list that is initialized and worked on by operations that meet their
conditions stands for the sequence they give, and only what the operations free is
freed. -/
theorem refines_of_runOps {ops : List Op} (hok : h.willAlloc = true)
    (hm : ∀ p h', init h = .ok (p, h') → meetsAll ops p [] h' = true) :
    Wp (init >>= runOps ops)
      (fun p h' => ∃ root' l', p = some root' ∧ Shape h' root' l' ∧
        l'.map Prod.snd = specs ops [] ∧ Reads h' root' (specs ops []) ∧
        (∀ v ∈ allFrees ops [], h'.get v = none) ∧
        ∀ a b, h.get a = some b → a ∉ allFrees ops [] → h'.get a = some b) h := by
  obtain ⟨p, h1, heq, hinit⟩ := wp_init (π := π) (h := h)
  rw [if_pos hok] at hinit
  obtain ⟨rfl, hs, -, -, -, hkeep⟩ := hinit
  have hall := hm _ h1 heq
  refine Wp.bind ⟨_, h1, heq, ?_⟩
  refine (wp_runOps hs hall).mono fun p h' hr => ?_
  obtain ⟨root', rfl, hr⟩ := hr
  obtain ⟨l', hs', hl', -⟩ := hr.shape
  have hlen := specs_length_lt (by decide) hs rfl rfl hall
  refine ⟨root', l', rfl, hs', hl', hs'.reads hl' hlen, fun v hv => (hr.freed v hv).2, ?_⟩
  intro a b ha hfree
  have hne : a ≠ h.bound := Nat.ne_of_lt (Heap.lt_bound ha)
  exact hr.others a b ((hkeep a hne).trans ha) hne List.not_mem_nil hfree

/-- Two payloads in an otherwise empty memory where every allocation succeeds. -/
def twoPayloads : Heap (Block Unit) :=
  (Heap.push (Heap.push ⟨fun _ => none, 0, fun _ => true, 0, fun _ _ => rfl⟩
    (.payload ())) (.payload ()))

/-- Both are appended, the second is moved to the front and the first removed. -/
def moveAndRemove : List Op :=
  [.addTail 0 8, .addTail 1 8, .moveToFront 1, .removeElementAt 1, .removeFirst]

theorem refines_of_runOps_moveAndRemove :
    specs moveAndRemove [] = [] ∧ allFrees moveAndRemove [] = [1] ∧
    Wp (init >>= runOps moveAndRemove)
      (fun p h' => ∃ root' l', p = some root' ∧ Shape h' root' l' ∧
        l'.map Prod.snd = specs moveAndRemove [] ∧ Reads h' root' (specs moveAndRemove []) ∧
        (∀ v ∈ allFrees moveAndRemove [], h'.get v = none) ∧
        ∀ a b, twoPayloads.get a = some b → a ∉ allFrees moveAndRemove [] →
          h'.get a = some b) twoPayloads := by
  refine ⟨by decide, by decide, refines_of_runOps rfl fun p h' heq => ?_⟩
  cases heq
  decide +kernel

/-- `linked_list_pop_first` frees the payload it takes out. -/
theorem popFirst_frees :
    specs [.addTail 0 8, .addTail 1 8, .popFirst] [] = [1] ∧
    allFrees [.addTail 0 8, .addTail 1 8, .popFirst] [] = [] ∧
    twoPayloads.get 0 = some (.payload ()) ∧
    Wp (init >>= runOps [.addTail 0 8, .addTail 1 8, .popFirst])
      (fun p h' => p = some 3 ∧ h'.get 0 = none) twoPayloads := by
  refine ⟨by decide, by decide, rfl, ?_⟩
  exact ⟨_, _, rfl, rfl, rfl⟩

end LinkedList

end Calipso
