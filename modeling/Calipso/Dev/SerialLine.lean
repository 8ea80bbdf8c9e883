import Calipso.Lib.Ringbuf
import Mathlib.Data.List.Forall2
import Mathlib.Data.List.Infix

/-!
# Lines from the serial port

`serial-line.c`: the interrupt puts bytes into a ring buffer, and a process gathers them into lines.
A full line is announced to all processes with one event, and the process goes on when a second
event, to itself, has come behind it. Other processes share the queue of `n` events.
-/

namespace Calipso.Dev.SerialLine

open Lib List

/-- `IGNORE_CHAR` -/
def ignoreChar : UInt8 := 0x0d

/-- `END` -/
def endChar : UInt8 := 0x0a

/-- An event in the queue: `serial_line_event_message`, `PROCESS_EVENT_CONTINUE` or another one. -/
inductive Posted
  | message
  | continue
  | other
  deriving DecidableEq

/-- The driver with the queue. `seen` is what the processes find in the buffer at each message. -/
structure State where
  rxbuf : Ringbuf
  overflow : Bool
  buf : Nat → UInt8
  ptr : Nat
  waiting : Bool
  queue : List Posted
  seen : List (List UInt8)

namespace State

variable (s : State)

/-- `serial_line_input_byte` -/
def inputByte (c : UInt8) : State :=
  if c = ignoreChar then s
  else if s.overflow = false then
    { s with rxbuf := (s.rxbuf.put c).2, overflow := !(s.rxbuf.put c).1 }
  else if c = endChar then
    { s with rxbuf := (s.rxbuf.put c).2, overflow := !(s.rxbuf.put c).1 }
  else s

/-- `process_post` -/
def post (n : Nat) (p : Posted) : State :=
  if s.queue.length < n then { s with queue := s.queue ++ [p] } else s

def store (c : UInt8) : State := { s with buf := Function.update s.buf s.ptr c, ptr := s.ptr + 1 }

/-- The end of a line in `serial_line_process`. -/
def announce (n : Nat) : State :=
  let s := (s.store 0).post n .message
  if s.queue.length < n then { s.post n .continue with waiting := true } else { s with ptr := 0 }

/-- One round of the loop in `serial_line_process`. -/
def take (size n : Nat) : State :=
  if s.waiting then s
  else match s.rxbuf.get with
    | (none, _) => s
    | (some c, r) =>
      let s := { s with rxbuf := r }
      if c = endChar then s.announce n else if s.ptr < size - 1 then s.store c else s

/-- The string in the buffer. -/
def text (size : Nat) : List UInt8 := ((range size).map s.buf).takeWhile (· ≠ 0)

/-- The first event is taken out of the queue. -/
def dispatch (size : Nat) : State :=
  match s.queue with
  | [] => s
  | .message :: q => { s with queue := q, seen := s.seen ++ [s.text size] }
  | .continue :: q => { s with queue := q, waiting := false, ptr := 0 }
  | .other :: q => { s with queue := q }

end State

inductive Event
  | input (c : UInt8)
  | take
  | post
  | dispatch

def step (size n : Nat) (s : State) : Event → State
  | .input c => s.inputByte c
  | .take => s.take size n
  | .post => s.post n .other
  | .dispatch => s.dispatch size

/-- With the end of a line in hand there is no room for exactly one of the two events. -/
def Proper (n : Nat) (s : State) : Event → Prop
  | .take => s.waiting = false → s.rxbuf.get.1 = some endChar → s.queue.length + 1 ≠ n
  | _ => True

/-- Every step of a run is proper. -/
def ProperRun (size n : Nat) : State → List Event → Prop
  | _, [] => True
  | s, e :: es => Proper n s e ∧ ProperRun size n (step size n s e) es

/-- `serial_line_init` with `BUFSIZE` a power of two. -/
def init (data buf : Nat → UInt8) (k : Fin 9) : State where
  rxbuf := .init data (UInt8.ofNat (2 ^ k.val))
  overflow := false
  buf := buf
  ptr := 0
  waiting := false
  queue := []
  seen := []

/-! ### Lines -/

/-- The complete lines and what is behind the last end. -/
def split (l : List UInt8) : List (List UInt8) × List UInt8 :=
  l.foldl (fun x c => if c = endChar then (x.1 ++ [x.2], []) else (x.1, x.2 ++ [c])) ([], [])

/-- The bytes that came in. -/
def fed (es : List Event) : List UInt8 :=
  es.flatMap fun
    | .input c => if c = ignoreChar then [] else [c]
    | _ => []

variable {s : State} {size n : ℕ} {es : List Event} {input got l m : List UInt8} {c x : UInt8}
  {ls ms : List (List UInt8)}

/-- Every line is the beginning of one of the others, which are in the same order. -/
abbrev Cut (ls ms : List (List UInt8)) : Prop := SublistForall₂ (· <+: ·) ls ms

theorem Cut.snoc (h : Cut ls ms) (hl : l <+: m) : Cut (ls ++ [l]) (ms ++ [m]) := by
  obtain ⟨ks, hks, hsub⟩ := sublistForall₂_iff.mp h
  exact sublistForall₂_iff.mpr ⟨ks ++ [m], rel_append hks (.cons hl .nil), hsub.append_right _⟩

theorem Cut.skip (h : Cut ls ms) (m : List UInt8) : Cut ls (ms ++ [m]) := by
  obtain ⟨ks, hks, hsub⟩ := sublistForall₂_iff.mp h
  exact sublistForall₂_iff.mpr ⟨ks, hks, hsub.trans (sublist_append_left _ _)⟩

theorem split_snoc (l : List UInt8) (c : UInt8) : split (l ++ [c]) =
    if c = endChar then ((split l).1 ++ [(split l).2], []) else
      ((split l).1, (split l).2 ++ [c]) := by
  rw [split, foldl_append]
  rfl

/-- What the lines in the stream behind the ring buffer have to do with those that came in. In an
overflow the line that is not complete may be the beginning of any later one. -/
def Behind (overflow : Bool) (l m : List UInt8) : Prop :=
  Cut (split l).1 (split m).1 ∧
    if overflow then Cut ((split l).1 ++ [(split l).2]) ((split m).1 ++ [(split m).2])
    else (split l).2 = (split m).2

theorem Behind.all {b : Bool} (h : Behind b l m) :
    Cut ((split l).1 ++ [(split l).2]) ((split m).1 ++ [(split m).2]) := by
  cases b with
  | false => exact h.1.snoc (h.2 ▸ prefix_rfl)
  | true => exact h.2

/-- The byte is not there, or not taken. -/
theorem Behind.lost {b : Bool} (h : Behind b l m) (c : UInt8) : Behind true l (m ++ [c]) := by
  show _ ∧ Cut _ _
  rw [split_snoc]
  split
  · exact ⟨h.1.skip _, h.all.skip []⟩
  · exact ⟨h.1, IsTrans.trans _ _ _ h.all
      (Cut.snoc (refl_of (SublistForall₂ (· <+: ·)) _) (prefix_append _ _))⟩

theorem Behind.kept {b : Bool} (h : Behind b l m) (hc : b = false ∨ c = endChar) :
    Behind false (l ++ [c]) (m ++ [c]) := by
  unfold Behind
  rw [split_snoc, split_snoc]
  split
  · exact ⟨h.all, rfl⟩
  · next hne =>
      obtain rfl := hc.resolve_right hne
      exact ⟨h.1, congrArg (· ++ [c]) h.2⟩

theorem split_sublist (l m : List UInt8) : (split l).1 <+ (split (l ++ m)).1 := by
  induction m using List.reverseRecOn with
  | nil => rw [append_nil]
  | append_singleton m c ih =>
      rw [← append_assoc, split_snoc]
      split
      · exact ih.trans (sublist_append_left _ _)
      · exact ih

/-! ### Runs -/

/-- The process gathers a line, which is cut to the size. -/
structure Gathering (size : ℕ) (got : List UInt8) (s : State) : Prop where
  waiting : s.waiting = false
  queue : s.queue.filter (· ≠ .other) = []
  buf : (range s.ptr).map s.buf = (split got).2.take (size - 1)
  seen : Cut s.seen (split got).1

/-- The process gathers a line, its message is in the queue, or was taken out of it. -/
inductive Phase (size : ℕ) (got : List UInt8) (s : State) : Prop
  | gathering (h : Gathering size got s)
  | announced (hw : s.waiting = true) (hq : s.queue.filter (· ≠ .other) = [.message, .continue])
      (hbuf : (split got).2 = []) (hseen : Cut (s.seen ++ [s.text size]) (split got).1)
  | heard (hw : s.waiting = true) (hq : s.queue.filter (· ≠ .other) = [.continue])
      (hbuf : (split got).2 = []) (hseen : Cut s.seen (split got).1)

structure Inv (size : ℕ) (input : List UInt8) (s : State) (got : List UInt8) : Prop where
  fits : s.rxbuf.Fits
  behind : Behind s.overflow (got ++ s.rxbuf.contents) input
  phase : Phase size got s

/-- Neither the interrupt nor other events matter to the process. -/
theorem Phase.keep (h : Phase size got s) (r : Ringbuf) (b : Bool) {q : List Posted}
    (hq : q.filter (· ≠ .other) = s.queue.filter (· ≠ .other)) :
    Phase size got { s with rxbuf := r, overflow := b, queue := q } := by
  cases h with
  | gathering h => exact .gathering { h with queue := hq.trans h.queue }
  | announced hw hq' hbuf hseen => exact .announced hw (hq.trans hq') hbuf hseen
  | heard hw hq' hbuf hseen => exact .heard hw (hq.trans hq') hbuf hseen

theorem inv_inputByte (h : Inv size input s got) (c : UInt8) :
    Inv size (input ++ if c = ignoreChar then [] else [c]) (s.inputByte c) got := by
  unfold State.inputByte
  split
  · rwa [append_nil]
  have hput (hc : s.overflow = false ∨ c = endChar) :
      Inv size (input ++ [c])
        { s with rxbuf := (s.rxbuf.put c).2, overflow := !(s.rxbuf.put c).1 } got := by
    obtain ⟨hfits, hfull | hroom⟩ := h.fits.put c
    · rw [hfull]
      exact ⟨h.fits, h.behind.lost c, h.phase.keep _ _ rfl⟩
    · refine ⟨hfits, ?_, h.phase.keep _ _ rfl⟩
      rw [hroom.1, hroom.2, ← append_assoc]
      exact h.behind.kept hc
  split
  · next hb => exact hput (.inl hb)
  · next hb =>
      split
      · next hc => exact hput (.inr hc)
      · exact ⟨h.fits, (Bool.eq_true_of_not_eq_false hb).symm ▸ h.behind.lost c, h.phase⟩

theorem text_prefix {k : ℕ} (hk : k < size) (h : s.buf k = 0) :
    s.text size <+: (range k).map s.buf := by
  obtain ⟨d, rfl⟩ := Nat.exists_eq_add_of_lt hk
  rw [State.text, Nat.add_assoc, range_add, map_append, Nat.add_comm d 1, range_add, map_append,
    takeWhile_append]
  split
  · simp [h]
  · exact takeWhile_prefix _

/-- The buffer ends with a zero at the end of a line, which is cut to the size. -/
theorem text_store (hs : s.ptr < size) : (s.store 0).text size <+: (range s.ptr).map s.buf := by
  have hmap : (range s.ptr).map (s.store 0).buf = (range s.ptr).map s.buf :=
    map_congr_left fun k hk => Function.update_of_ne (ne_of_lt (mem_range.mp hk)) _ _
  exact hmap ▸ text_prefix hs (Function.update_self ..)

theorem Gathering.ptr_eq (h : Gathering size got s) :
    s.ptr = min (size - 1) (split got).2.length := by
  simpa using congrArg length h.buf

theorem announce_frame (s : State) (n : ℕ) :
    (s.announce n).rxbuf = s.rxbuf ∧ (s.announce n).overflow = s.overflow := by
  unfold State.announce State.post
  dsimp only
  split_ifs <;> exact ⟨rfl, rfl⟩

/-- With room for both events the process waits, with room for none the line is lost. -/
theorem Gathering.announce (h : Gathering size got s) (hsize : 0 < size)
    (hroom : s.queue.length + 1 ≠ n) : Phase size (got ++ [endChar]) (s.announce n) := by
  have hsplit := split_snoc got endChar
  rw [if_pos rfl] at hsplit
  have hptr := h.ptr_eq
  have htext : (s.store 0).text size <+: (split got).2 :=
    (text_store (by omega)).trans (h.buf ▸ take_prefix _ _)
  by_cases hlt : s.queue.length < n
  · have heq : s.announce n =
        { s.store 0 with queue := s.queue ++ [.message] ++ [.continue], waiting := true } := by
      simp [State.announce, State.post, State.store, hlt, show s.queue.length + 1 < n by omega]
    rw [heq]
    refine .announced rfl ?_ (hsplit ▸ rfl) ?_
    · rw [filter_append, filter_append, h.queue]
      rfl
    · rw [hsplit]
      exact h.seen.snoc htext
  · have heq : s.announce n = { s.store 0 with ptr := 0 } := by
      simp [State.announce, State.post, State.store, hlt]
    rw [heq]
    refine .gathering ⟨h.waiting, h.queue, ?_, hsplit ▸ h.seen.skip _⟩
    rw [hsplit]
    exact take_nil.symm

/-- A byte of a line is stored while there is room for the zero behind it. -/
theorem Gathering.store (h : Gathering size got s) (hc : c ≠ endChar) :
    Phase size (got ++ [c]) (if s.ptr < size - 1 then s.store c else s) := by
  have hsplit := split_snoc got c
  rw [if_neg hc] at hsplit
  have hptr := h.ptr_eq
  split
  · next hlt =>
      refine .gathering ⟨h.waiting, h.queue, ?_, hsplit ▸ h.seen⟩
      have hkeep : (range s.ptr).map (s.store c).buf = (range s.ptr).map s.buf :=
        map_congr_left fun k hk => Function.update_of_ne (ne_of_lt (mem_range.mp hk)) _ _
      rw [hsplit, show (s.store c).ptr = s.ptr + 1 from rfl, range_succ, map_append, hkeep, h.buf,
        take_of_length_le (by omega), take_of_length_le (by simp; omega)]
      exact congrArg (fun x => _ ++ [x]) (Function.update_self ..)
  · refine .gathering ⟨h.waiting, h.queue, ?_, hsplit ▸ h.seen⟩
    rw [hsplit, h.buf, take_append_of_le_length (by omega)]

theorem inv_take (h : Inv size input s got) (hsize : 0 < size) (hp : Proper n s .take) :
    ∃ got', Inv size input (s.take size n) got' := by
  unfold State.take
  by_cases hwait : s.waiting = true
  · rw [if_pos hwait]
    exact ⟨got, h⟩
  rw [if_neg hwait]
  obtain ⟨hfits, hget | ⟨c, hc, hcontents⟩⟩ := h.fits.get
  · rw [hget]
    exact ⟨got, h⟩
  have hbehind : Behind s.overflow ((got ++ [c]) ++ s.rxbuf.get.2.contents) input := by
    rw [append_assoc, singleton_append, ← hcontents]
    exact h.behind
  rw [show s.rxbuf.get = (some c, s.rxbuf.get.2) from Prod.ext hc rfl]
  refine ⟨got ++ [c], ?_⟩
  cases h.phase with
  | gathering hg =>
      dsimp only
      have hg : Gathering size got { s with rxbuf := s.rxbuf.get.2 } := { hg with }
      split
      · next hend =>
          subst hend
          obtain ⟨hrx, hov⟩ := announce_frame { s with rxbuf := s.rxbuf.get.2 } n
          refine ⟨hrx ▸ hfits, ?_, hg.announce hsize (hp hg.waiting hc)⟩
          rw [hrx, hov]
          exact hbehind
      · next hend =>
          have hphase := hg.store hend
          split_ifs at hphase ⊢ <;> exact ⟨hfits, hbehind, hphase⟩
  | announced hw => exact absurd hw hwait
  | heard hw => exact absurd hw hwait

theorem inv_post (h : Inv size input s got) : Inv size input (s.post n .other) got := by
  unfold State.post
  split
  · exact ⟨h.fits, h.behind, h.phase.keep _ _ (by simp)⟩
  · exact h

theorem inv_dispatch (h : Inv size input s got) : Inv size input (s.dispatch size) got := by
  unfold State.dispatch
  split
  · exact h
  · next q hqueue =>
      refine ⟨h.fits, h.behind, ?_⟩
      cases h.phase with
      | gathering h => simpa [hqueue] using h.queue
      | announced hw hq hbuf hseen => exact .heard hw (by simpa [hqueue] using hq) hbuf hseen
      | heard _ hq => simp [hqueue] at hq
  · next q hqueue =>
      refine ⟨h.fits, h.behind, ?_⟩
      cases h.phase with
      | gathering h => simpa [hqueue] using h.queue
      | announced _ hq => simp [hqueue] at hq
      | heard _ hq hbuf hseen =>
          refine .gathering ⟨rfl, by simpa [hqueue] using hq, ?_, hseen⟩
          rw [hbuf]
          exact take_nil.symm
  · next q hqueue =>
      exact ⟨h.fits, h.behind, h.phase.keep _ _ (by simp [hqueue])⟩

theorem inv_run (h : Inv size input s got) (hsize : 0 < size) (hp : ProperRun size n s es) :
    ∃ got', Inv size (input ++ fed es) (es.foldl (step size n) s) got' := by
  induction es generalizing s input got with
  | nil => exact ⟨got, by rwa [fed, flatMap_nil, append_nil]⟩
  | cons e es ih =>
      rw [foldl_cons, fed, flatMap_cons, ← append_assoc]
      cases e with
      | input c => exact ih (inv_inputByte h c) hp.2
      | take =>
          obtain ⟨_, h'⟩ := inv_take h hsize hp.1
          rw [append_nil]
          exact ih h' hp.2
      | post =>
          rw [append_nil]
          exact ih (inv_post h) hp.2
      | dispatch =>
          rw [append_nil]
          exact ih (inv_dispatch h) hp.2

end Calipso.Dev.SerialLine
