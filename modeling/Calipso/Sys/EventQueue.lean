import Calipso.Memory.Fifo
import Mathlib.Tactic

/-!
# The event queue of the kernel

The queue of `process.c`, of `n` events (`PROCESS_CONF_NUMEVENTS`, which the type of the counters
can hold).
-/

namespace Calipso.Sys

open Memory

/-- `events`, `nevents` and `fevent` -/
structure EventQueue (ε : Type*) where
  events : Nat → ε
  nevents : Nat
  fevent : Nat

namespace EventQueue

variable {ε : Type*} (n : Nat) (q : EventQueue ε)

/-- `process_post`, with whether it was accepted. The sum is cut to eight bits before the
remainder is taken. -/
def processPost (e : ε) : Bool × EventQueue ε :=
  if q.nevents = n then (false, q)
  else (true,
    ⟨Function.update q.events ((q.fevent + q.nevents) % 256 % n) e, q.nevents + 1, q.fevent⟩)

/-- The event that `do_event` takes out of the queue. -/
def doEvent : Option ε × EventQueue ε :=
  if 0 < q.nevents then
    (some (q.events q.fevent), ⟨q.events, q.nevents - 1, (q.fevent + 1) % n⟩)
  else (none, q)

/-- Somebody posts an event, or the kernel takes one; with the calls so far. -/
def step (s : EventQueue ε × List (Call ε)) : Option ε → EventQueue ε × List (Call ε)
  | some e => ((s.1.processPost n e).2, s.2 ++ [.put e (s.1.processPost n e).1])
  | none => ((s.1.doEvent n).2, s.2 ++ [.get (s.1.doEvent n).1])

/-- The events in the queue. -/
def contents : List ε := (List.range q.nevents).map fun k => q.events ((q.fevent + k) % n)

variable {n q}

structure Fits (n : Nat) (q : EventQueue ε) : Prop where
  le : n ≤ 128
  nevents_le : q.nevents ≤ n
  fevent_lt : q.fevent < n

theorem length_contents : (q.contents n).length = q.nevents := by simp [contents]

theorem Fits.answers_post (h : Fits n q) (e : ε) : Fits n (q.processPost n e).2 ∧
    Answers n (q.contents n) (.put e (q.processPost n e).1) ((q.processPost n e).2.contents n) := by
  obtain ⟨hn, hle, hlt⟩ := h
  unfold processPost
  split
  · next hfull => exact ⟨⟨hn, hle, hlt⟩, .full (by rw [length_contents, hfull])⟩
  · next hfull =>
      have hroom : q.nevents < n := lt_of_le_of_ne hle hfull
      refine ⟨⟨hn, hroom, hlt⟩, ?_⟩
      -- the places of the other events differ from the new one
      have hcontents : contents n ⟨Function.update q.events ((q.fevent + q.nevents) % 256 % n) e,
          q.nevents + 1, q.fevent⟩ = q.contents n ++ [e] := by
        simp only [contents, Nat.mod_eq_of_lt (show q.fevent + q.nevents < 256 by omega),
          List.range_succ, List.map_append, List.map_singleton, Function.update_self]
        refine congrArg (· ++ [e]) (List.map_congr_left fun k hk => Function.update_of_ne ?_ _ _)
        have hk' := List.mem_range.mp hk
        exact fun heq => hk'.ne ((Nat.ModEq.add_left_cancel' _ heq).eq_of_lt_of_lt
          (hk'.trans hroom) hroom)
      rw [hcontents]
      exact .put (by rwa [length_contents])

theorem Fits.answers_doEvent (h : Fits n q) : Fits n (q.doEvent n).2 ∧
    Answers n (q.contents n) (.get (q.doEvent n).1) ((q.doEvent n).2.contents n) := by
  obtain ⟨hn, hle, hlt⟩ := h
  unfold doEvent
  split
  · next hsome =>
      obtain ⟨k, hk⟩ := Nat.exists_eq_add_one.mpr hsome
      refine ⟨⟨hn, (Nat.sub_le _ _).trans hle, Nat.mod_lt _ (Nat.zero_lt_of_lt hlt)⟩, ?_⟩
      have hcontents : q.contents n = q.events q.fevent ::
          contents n ⟨q.events, q.nevents - 1, (q.fevent + 1) % n⟩ := by
        simp only [contents, hk, Nat.add_sub_cancel, List.range_succ_eq_map, List.map_cons,
          List.map_map, Nat.mod_add_mod, Nat.add_zero, Nat.mod_eq_of_lt hlt]
        refine congrArg _ (List.map_congr_left fun j _ => ?_)
        simp only [Function.comp, Nat.succ_eq_add_one, Nat.add_comm j, Nat.add_assoc]
      rw [hcontents]
      exact .get
  · next hnone =>
      have hnil : q.contents n = [] := List.length_eq_zero_iff.mp (length_contents.trans (by omega))
      exact ⟨⟨hn, hle, hlt⟩, hnil ▸ .empty⟩

theorem history_run {s : EventQueue ε × List (Call ε)} (hfits : Fits n s.1)
    (h : History n s.2 (s.1.contents n)) (es : List (Option ε)) :
    History n (es.foldl (step n) s).2 ((es.foldl (step n) s).1.contents n) := by
  induction es generalizing s with
  | nil => exact h
  | cons e es ih =>
      cases e with
      | some e => exact ih (hfits.answers_post e).1 (h.snoc (hfits.answers_post e).2)
      | none => exact ih hfits.answers_doEvent.1 (h.snoc hfits.answers_doEvent.2)

/-- With at most 128 events, whatever is posted in between, the kernel takes the events that were
accepted one after the other and each once, and one is refused only when `n` are left. -/
theorem events_in_order (events : Nat → ε) (h0 : 0 < n) (hn : n ≤ 128) (es : List (Option ε)) :
    ∃ l, History n (es.foldl (step n) (⟨events, 0, 0⟩, [])).2 l :=
  ⟨_, history_run ⟨hn, Nat.zero_le _, h0⟩ .nil es⟩

/-- Two events in a queue for one. -/
theorem events_in_order_one :
    ∃ l, History 1 ([some 7, some 8, none].foldl (step 1) (⟨fun _ => 0, 0, 0⟩, [])).2 l :=
  events_in_order (fun _ => 0) Nat.one_pos (by decide) [some 7, some 8, none]

end EventQueue

end Calipso.Sys
