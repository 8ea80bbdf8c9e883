import Calipso.Apps.Servreg

/-!
# What the service registry keeps and hands on

The messages of `servreg-hack.c` and what is read from them, the walk that removes what is too old,
and `exchange_of_run`.
-/

namespace Calipso.Apps

open Lib Memory Net

/-! ### Messages -/

/-- The message with these registrations. -/
def message (rs : List Record) : List UInt8 :=
  [UInt8.ofNat rs.length, 0] ++ rs.flatMap Record.encode

theorem Record.encode_length (r : Record) : r.encode.length = 20 := by
  rw [Record.encode, List.length_append, Vector.length_toList]
  rfl

/-- As many registrations are put in a message as there is room for. -/
theorem foldl_put (rs : List Record) {n : Nat} {body : List UInt8} (hn : n ≤ 4)
    (hbody : body.length = 20 * n) :
    rs.foldl put (n, body) =
      (n + (rs.take (4 - n)).length, body ++ (rs.take (4 - n)).flatMap Record.encode) := by
  induction rs generalizing n body with
  | nil => simp
  | cons r rs ih =>
      rw [List.foldl_cons, put]
      rcases Nat.lt_or_eq_of_le hn with hlt | rfl
      · have hroom : msgAddrsOffset + body.length + msgAddrsLen ≤ maxBufsize := by
          rw [hbody, msgAddrsOffset, msgAddrsLen, maxBufsize]
          omega
        have hbody' : (body ++ r.encode).length = 20 * (n + 1) := by
          rw [List.length_append, hbody, r.encode_length]
          omega
        rw [if_pos hroom, ih (n := n + 1) hlt hbody', show 4 - n = 4 - (n + 1) + 1 by omega, List.take_succ_cons,
          List.length_cons, List.flatMap_cons, List.append_assoc]
        congr 1
        omega
      · have hfull : ¬ msgAddrsOffset + body.length + msgAddrsLen ≤ maxBufsize := by
          rw [hbody, msgAddrsOffset, msgAddrsLen, maxBufsize]
          decide
        rw [if_neg hfull, ih (Nat.le_refl 4) hbody]
        simp

/-- What is sent: the first four registrations of the two lists. -/
theorem finish_foldl (own others : List Record) :
    finish (others.foldl put (own.foldl put (0, []))) =
      if (own ++ others).take 4 = [] then none else some (message ((own ++ others).take 4)) := by
  rw [← List.foldl_append, foldl_put _ (Nat.zero_le 4) rfl, finish, Nat.zero_add, List.nil_append]
  simp only [Nat.sub_zero, List.length_pos_iff, ne_eq, ite_not]
  rfl

theorem recordAt_eq_some {buf : List UInt8} (h : 22 ≤ buf.length) :
    recordAt buf 2 = some ⟨Vector.ofFn fun i => buf.getD (2 + i.val) 0, buf[18], buf[21]⟩ := by
  rw [recordAt, List.getElem?_eq_getElem (show 2 + 16 < buf.length by omega),
    List.getElem?_eq_getElem (show 2 + 19 < buf.length by omega)]
  rfl

theorem recordAt_eq_none {buf : List UInt8} (h : ¬ 22 ≤ buf.length) : recordAt buf 2 = none := by
  rw [recordAt, List.getElem?_eq_none (i := 2 + 19) (by omega)]
  cases buf[2 + 16]? <;> rfl

/-- The place of the message that is read does not move. -/
theorem parseFrom_eq (buf : List UInt8) (bufptr n : Nat) :
    parseFrom buf bufptr n =
      if n = 0 then some [] else (recordAt buf bufptr).map (List.replicate n) := by
  induction n with
  | zero => rfl
  | succ n ih =>
      rw [parseFrom, ih, if_neg (Nat.succ_ne_zero n)]
      cases recordAt buf bufptr with
      | none => rfl
      | some r =>
          rcases Nat.eq_zero_or_pos n with rfl | hn
          · rfl
          · rw [if_neg (Nat.ne_of_gt hn)]
            rfl

/-- The first registration of a message is read as it was written. -/
theorem recordAt_message (r : Record) (rs : List Record) :
    recordAt (message (r :: rs)) 2 = some r := by
  have hlength : 22 ≤ (message (r :: rs)).length := by
    rw [message, List.flatMap_cons, List.length_append, List.length_append, r.encode_length]
    simp only [List.length_cons, List.length_nil]
    omega
  have hat : ∀ i < 20, (message (r :: rs))[2 + i]? = r.encode[i]? := fun i hi => by
    rw [message, List.getElem?_append_right (by simp), List.flatMap_cons]
    rw [List.getElem?_append_left (by rw [r.encode_length]; simpa using hi)]
    simp
  have hid : (message (r :: rs))[18]? = some r.id := by
    rw [hat 16 (by decide), Record.encode, List.getElem?_append_right (by simp)]
    simp
  have hseqno : (message (r :: rs))[21]? = some r.seqno := by
    rw [hat 19 (by decide), Record.encode, List.getElem?_append_right (by simp)]
    simp
  have howner : (Vector.ofFn fun i : Fin 16 => (message (r :: rs)).getD (2 + i.val) 0) =
      r.owner := by
    refine Vector.ext fun i hi => ?_
    rw [Vector.getElem_ofFn, List.getD_eq_getElem?_getD, hat i (by omega), Record.encode,
      List.getElem?_append_left (by simpa using hi)]
    simp [hi]
  rw [recordAt_eq_some hlength, howner]
  rw [List.getElem?_eq_getElem (by omega), Option.some_inj] at hid hseqno
  rw [hid, hseqno]

theorem parse_message {r : Record} {rs : List Record} (h : (r :: rs).length ≤ 4) :
    parseIncomingPacket (message (r :: rs)) = some (List.replicate (r :: rs).length r) := by
  have hcount : (UInt8.ofNat (r :: rs).length).toNat = (r :: rs).length :=
    UInt8.toNat_ofNat_of_lt (Nat.lt_of_le_of_lt h (by decide))
  have hparse : parseIncomingPacket (message (r :: rs)) =
      parseFrom (message (r :: rs)) 2 (UInt8.ofNat (r :: rs).length).toNat := rfl
  rw [hparse, hcount, parseFrom_eq, if_neg (by simp), recordAt_message, Option.map_some]

/-- The receiver is handed the registrations of a message if and only if they are all the same. -/
theorem parse_message_iff {rs : List Record} (hne : rs ≠ []) (h : rs.length ≤ 4) :
    parseIncomingPacket (message rs) = some rs ↔ ∀ r ∈ rs, ∀ r' ∈ rs, r = r' := by
  obtain ⟨r, rs, rfl⟩ := List.exists_cons_of_ne_nil hne
  rw [parse_message h, Option.some_inj, eq_comm, List.eq_replicate_iff]
  constructor
  · rintro ⟨-, hall⟩ x hx y hy
    rw [hall x hx, hall y hy]
  · intro hall
    exact ⟨rfl, fun x hx => hall x hx r List.mem_cons_self⟩

/-- All that is read is inside the message if there is no registration in it or at least one. -/
theorem parse_isSome_iff (buf : List UInt8) :
    (parseIncomingPacket buf).isSome ↔ 2 ≤ buf.length ∧ (buf[0]? = some 0 ∨ 22 ≤ buf.length) := by
  rcases buf with _ | ⟨numregs, _ | ⟨flags, body⟩⟩
  · exact iff_of_false Bool.false_ne_true fun h => absurd h.1 (by simp)
  · exact iff_of_false Bool.false_ne_true fun h => absurd h.1 (by simp)
  · have hparse : parseIncomingPacket (numregs :: flags :: body) =
        parseFrom (numregs :: flags :: body) 2 numregs.toNat := rfl
    rw [hparse, parseFrom_eq, and_iff_right (by simp)]
    by_cases hzero : numregs = 0
    · subst hzero
      exact iff_of_true rfl (.inl rfl)
    · have hpos : numregs.toNat ≠ 0 := fun h => hzero (UInt8.toNat_inj.mp h)
      have hne : (numregs :: flags :: body)[0]? ≠ some 0 := fun h =>
        hzero (Option.some_inj.mp h)
      rw [if_neg hpos, or_iff_right hne, Option.isSome_map]
      by_cases hlength : 22 ≤ (numregs :: flags :: body).length
      · rw [recordAt_eq_some hlength]
        exact iff_of_true rfl hlength
      · rw [recordAt_eq_none hlength]
        exact iff_of_false Bool.false_ne_true hlength

/-! ### What has been accepted -/

/-- The number of the last registration for `id` that was accepted, if `q` was before. -/
def accept (id : UInt8) (q : Option UInt8) : Act → Option UInt8
  | .created id' seqno | .refreshed id' seqno => if id' = id then some seqno else q
  | _ => q

def lastAccepted (log : List Act) (id : UInt8) : Option UInt8 := log.foldl (accept id) none

/-- A registration is refreshed by a newer number than the last one that was accepted, and no other
one is discarded. -/
def Act.Right (log : List Act) : Act → Prop
  | .refreshed id seqno => ∃ q, lastAccepted log id = some q ∧ seqnoLt q seqno = true
  | .discarded id seqno => ∃ q, lastAccepted log id = some q ∧ seqnoLt q seqno = false
  | _ => True

def AllRight (log : List Act) : List Act → Prop
  | [] => True
  | a :: acts => a.Right log ∧ AllRight (log ++ [a]) acts

variable {log acts acts' : List Act}

theorem AllRight.append (h : AllRight log acts) (h' : AllRight (log ++ acts) acts') :
    AllRight log (acts ++ acts') := by
  induction acts generalizing log with
  | nil => simpa using h'
  | cons a acts ih =>
      refine ⟨h.1, ih h.2 ?_⟩
      rwa [List.append_assoc]

theorem AllRight.right {a : Act} (h : AllRight log acts) {pre post : List Act}
    (hacts : acts = pre ++ a :: post) : a.Right (log ++ pre) := by
  induction pre generalizing log acts with
  | nil =>
      rw [hacts] at h
      rw [List.append_nil]
      exact h.1
  | cons b pre ih =>
      rw [hacts] at h
      have hright := ih h.2 rfl
      rwa [List.append_assoc] at hright

theorem lastAccepted_snoc (log : List Act) (a : Act) (id : UInt8) :
    lastAccepted (log ++ [a]) id = accept id (lastAccepted log id) a := by
  rw [lastAccepted, List.foldl_append]
  rfl

namespace Registry

/-! ### The lists -/

/-- The registrations of this node and those of others are listed, and their blocks are those in
use. -/
structure Listed (s : Registry) (own others : List Nat) : Prop where
  ownTable : s.ownServices.Holds own
  othersTable : s.othersServices.Holds others
  mem : s.registrations.Holds (own ++ others)
  size : s.registrations.size = maxRegistrations
  lt : ∀ e ∈ own ++ others, e < maxRegistrations

variable {s s' : Registry} {own own' others pre rest l : List Nat} {e : Nat} {n : Nat}

theorem listed_init (now : Nat) (item : Nat → Registration) : Listed (init now item) [] [] where
  ownTable := ⟨rfl, List.nodup_nil⟩
  othersTable := ⟨rfl, List.nodup_nil⟩
  mem := Memb.holds_empty _
  size := rfl
  lt _ h := by cases h

theorem Listed.length_le (h : Listed s own others) :
    own.length + others.length ≤ maxRegistrations := by
  have hsub : own ++ others ⊆ List.range maxRegistrations := fun e he =>
    List.mem_range.mpr (h.lt e he)
  have hle := (List.subperm_of_subset h.mem.nodup hsub).length_le
  rwa [List.length_append, List.length_range] at hle

theorem Listed.notMem (h : Listed s own others) (he : e ∈ others) : e ∉ own := fun hmem =>
  (List.nodup_append.mp h.mem.nodup).2.2 e hmem e he rfl

/-- What is listed does not depend on the time and on what the registrations hold. -/
theorem Listed.congr (h : Listed s own others) (hown : s'.ownServices = s.ownServices)
    (hothers : s'.othersServices = s.othersServices)
    (hmem : s'.registrations = s.registrations) : Listed s' own others where
  ownTable := hown ▸ h.ownTable
  othersTable := hothers ▸ h.othersTable
  mem := hmem ▸ h.mem
  size := hmem ▸ h.size
  lt := h.lt

theorem modify_item_of_ne (s : Registry) {x : Nat} (hx : x ≠ e) (f : Registration → Registration) :
    (s.modify e f).item x = s.item x :=
  Function.update_of_ne hx _ _

/-! ### The walk over what is too old -/

/-- After a removal the walk goes on behind the head of the list, whatever that is: so the head may
be too old in the end, but nothing behind it. -/
theorem Listed.purgeFrom (h : Listed s own (pre ++ rest))
    (hpre : ∀ x ∈ pre.tail, s.expired x = false)
    (hn : (pre ++ rest).length * 17 + rest.length ≤ n) :
    ∃ s' l, Registry.purgeFrom n rest.head? s = some s' ∧ Listed s' own l ∧
      l.Sublist (pre ++ rest) ∧ (∀ x ∈ l.tail, s.expired x = false) ∧
      (∀ x ∈ pre ++ rest, s.expired x = false → x ∈ l) ∧
      (∀ x ∈ l, s.expired x = true → x ∈ pre ++ rest.tail) ∧
      s'.now = s.now ∧ s'.item = s.item := by
  induction n generalizing pre rest s with
  | zero =>
      obtain rfl : rest = [] := List.length_eq_zero_iff.mp (by omega)
      rw [List.append_nil] at *
      exact ⟨s, pre, rfl, h, List.Sublist.refl pre, hpre, fun x hx _ => hx,
        fun x hx _ => by simpa using hx, rfl, rfl⟩
  | succ n ih =>
      cases rest with
      | nil =>
          rw [List.append_nil] at *
          exact ⟨s, pre, rfl, h, List.Sublist.refl pre, hpre, fun x hx _ => hx,
            fun x hx _ => by simpa using hx, rfl, rfl⟩
      | cons t rest =>
          rw [List.length_append, List.length_cons] at hn
          by_cases ht : s.expired t = true
          · have hle := h.length_le
            rw [List.length_append, List.length_cons, maxRegistrations] at hle
            obtain ⟨others, hremove, hothers, -⟩ :=
              h.othersTable.remove (n := maxRegistrations) (by rw [maxRegistrations]; omega)
            have hperm : (own ++ (pre ++ t :: rest)).Perm (t :: (own ++ (pre ++ rest))) := by
              have hmiddle : (own ++ pre ++ t :: rest).Perm (t :: (own ++ pre ++ rest)) :=
                List.perm_middle
              rwa [List.append_assoc, List.append_assoc] at hmiddle
            have hlisted : Listed
                { s with othersServices := others, registrations := s.registrations.free t }
                own (pre ++ rest) :=
              ⟨h.ownTable, hothers, (h.mem.perm hperm).free, h.size, fun x hx =>
                h.lt x (hperm.mem_iff.mpr (List.mem_cons_of_mem t hx))⟩
            have hkeep : (pre ++ rest).Sublist (pre ++ t :: rest) :=
              List.Sublist.append (List.Sublist.refl pre) (List.sublist_cons_self t rest)
            have hlive : ∀ x ∈ pre ++ t :: rest, s.expired x = false → x ∈ pre ++ rest := by
              intro x hx hxe
              rcases List.mem_append.mp hx with hx | hx
              · exact List.mem_append_left rest hx
              · rcases List.mem_cons.mp hx with rfl | hx
                · rw [ht] at hxe
                  cases hxe
                · exact List.mem_append_right pre hx
            rw [List.head?_cons, Registry.purgeFrom, if_pos ht, hremove, Option.bind_some,
              hothers.second]
            cases hall : pre ++ rest with
            | nil =>
                rw [hall] at hlisted hkeep hlive
                refine ⟨_, [], ?_, hlisted, hkeep, List.forall_mem_nil _, hlive,
                  List.forall_mem_nil _, rfl, rfl⟩
                cases n <;> rfl
            | cons a tl =>
                rw [hall] at hlisted hkeep hlive
                have hlength : pre.length + rest.length = tl.length + 1 := by
                  rw [← List.length_append, hall, List.length_cons]
                have hahead : Listed
                    { s with othersServices := others, registrations := s.registrations.free t }
                    own ([a] ++ tl) := hlisted
                have hrounds : ([a] ++ tl).length * 17 + tl.length ≤ n := by
                  rw [List.length_append, List.length_singleton]
                  omega
                obtain ⟨s', l, hrun, hlisted', hsub, htail, hin, -, hnow, hitem⟩ :=
                  ih hahead (List.forall_mem_nil _) hrounds
                refine ⟨s', l, hrun, hlisted', hsub.trans hkeep, htail,
                  fun x hx hxe => hin x (hlive x hx hxe) hxe, fun x hx _ => ?_, hnow, hitem⟩
                have hmem := hsub.subset hx
                rwa [List.singleton_append, ← hall] at hmem
          · rw [Bool.not_eq_true] at ht
            have hnext : s.othersServices.next t = rest.head? :=
              (h.othersTable.linked.next_eq pre).head_eq
            have hlisted : Listed s own (pre ++ [t] ++ rest) := by
              rwa [List.append_assoc]
            have htail : ∀ x ∈ (pre ++ [t]).tail, s.expired x = false := by
              intro x hx
              cases pre with
              | nil => cases hx
              | cons a pre =>
                  rcases List.mem_append.mp hx with hx | hx
                  · exact hpre x hx
                  · rwa [List.mem_singleton.mp hx]
            have hrounds : (pre ++ [t] ++ rest).length * 17 + rest.length ≤ n := by
              rw [List.length_append, List.length_append, List.length_singleton]
              omega
            obtain ⟨s', l, hrun, hlisted', hsub, htail', hin, hout, hnow, hitem⟩ :=
              ih hlisted htail hrounds
            rw [List.append_assoc, List.singleton_append] at hsub hin
            refine ⟨s', l, ?_, hlisted', hsub, htail', hin, fun x hx hxe => ?_, hnow, hitem⟩
            · rw [List.head?_cons, Registry.purgeFrom,
                if_neg (by rw [ht]; exact Bool.false_ne_true), hnext]
              exact hrun
            · rcases List.mem_append.mp (hsub.subset hx) with hx | hx
              · exact List.mem_append_left _ hx
              · rcases List.mem_cons.mp hx with rfl | hx
                · rw [ht] at hxe
                  cases hxe
                · exact List.mem_append_right pre hx

theorem renew_item_of_ne (s : Registry) {x : Nat} (hx : x ≠ e) : (s.renew e).item x = s.item x := by
  unfold renew
  split_ifs
  · exact modify_item_of_ne s hx _
  · rfl

/-- The loop over the registrations of this node changes nothing else. -/
theorem foldl_renew (s : Registry) (own : List Nat) :
    (own.foldl renew s).now = s.now ∧ (own.foldl renew s).ownServices = s.ownServices ∧
      (own.foldl renew s).othersServices = s.othersServices ∧
      (own.foldl renew s).registrations = s.registrations ∧
      ∀ x, x ∉ own → (own.foldl renew s).item x = s.item x := by
  induction own generalizing s with
  | nil => exact ⟨rfl, rfl, rfl, rfl, fun x _ => rfl⟩
  | cons e own ih =>
      rw [List.foldl_cons]
      obtain ⟨hnow, hown, hothers, hmem, hitem⟩ := ih (s.renew e)
      have hrenew : (s.renew e).now = s.now ∧ (s.renew e).ownServices = s.ownServices ∧
          (s.renew e).othersServices = s.othersServices ∧
          (s.renew e).registrations = s.registrations := by
        unfold renew
        split_ifs <;> exact ⟨rfl, rfl, rfl, rfl⟩
      refine ⟨hnow.trans hrenew.1, hown.trans hrenew.2.1, hothers.trans hrenew.2.2.1,
        hmem.trans hrenew.2.2.2, fun x hx => ?_⟩
      have hne : x ≠ e := fun hxe => hx (hxe ▸ List.mem_cons_self)
      rw [hitem x fun hmem => hx (List.mem_cons_of_mem e hmem), renew_item_of_ne s hne]

/-- `purge_registrations` removes what is too old, except perhaps a registration that comes to be
the head of the list. -/
structure Purged (s s' : Registry) (own others l : List Nat) : Prop where
  listed : Listed s' own l
  sublist : l.Sublist others
  tail : ∀ x ∈ l.tail, s.expired x = false
  live : ∀ x ∈ others, s.expired x = false → x ∈ l
  old : ∀ x ∈ l, s.expired x = true → x ∈ others.tail
  now : s'.now = s.now
  item : ∀ x ∈ l, s'.item x = s.item x

theorem Listed.purge (h : Listed s own others) :
    ∃ s' l, s.purge = some s' ∧ Purged s s' own others l := by
  obtain ⟨hnow, hown, hothers, hmem, hitem⟩ := foldl_renew s own
  have hlength := h.length_le
  have hlisted : Listed (own.foldl renew s) own ([] ++ others) := h.congr hown hothers hmem
  have hexpired : ∀ x ∈ others, (own.foldl renew s).expired x = s.expired x := fun x hx => by
    rw [expired, expired, hnow, hitem x (h.notMem hx)]
  have hrounds : ([] ++ others).length * 17 + others.length ≤
      maxRegistrations * (maxRegistrations + 2) := by
    rw [List.nil_append, maxRegistrations] at *
    omega
  obtain ⟨s', l, hrun, hlisted', hsub, htail, hlive, hold, hnow', hitem'⟩ :=
    hlisted.purgeFrom (List.forall_mem_nil _) hrounds
  rw [List.nil_append] at *
  have hmem' : ∀ x ∈ l, x ∈ others := fun x hx => hsub.subset hx
  refine ⟨s', l, ?_, hlisted', hsub, fun x hx => ?_, fun x hx hxe => hlive x hx ?_,
    fun x hx hxe => hold x hx ?_, hnow'.trans hnow, fun x hx => ?_⟩
  · have helements := h.ownTable.elements (n := maxRegistrations) (by omega)
    rw [Registry.purge, helements]
    simp only [Option.bind_eq_bind, Option.bind_some]
    rw [hothers, h.othersTable.linked.head_eq]
    exact hrun
  · rw [← hexpired x (hmem' x (List.mem_of_mem_tail hx))]
    exact htail x hx
  · rwa [hexpired x hx]
  · rwa [hexpired x (hmem' x hx)]
  · rw [hitem', hitem x (h.notMem (hmem' x hx))]

theorem Listed.listHead (h : Listed s own others) :
    ∃ s' l, s.listHead = some (s', l) ∧ Purged s s' own others l := by
  obtain ⟨s', l, hpurge, hpurged⟩ := h.purge
  have hlength := hpurged.listed.length_le
  have helements := hpurged.listed.othersTable.elements (n := maxRegistrations) (by omega)
  refine ⟨s', l, ?_, hpurged⟩
  simp only [Registry.listHead, hpurge, helements, Option.bind_eq_bind, Option.bind_some]
  rfl

/-- `servreg_hack_lookup` purges twice, and nothing is left that is too old. -/
theorem Listed.lookup (h : Listed s own others) (id : UInt8) : ∃ s' l,
    s.lookup id = some (s', l.find? fun e => (s'.item e).id = id) ∧ Listed s' own l ∧
      l.Sublist others ∧ (∀ x ∈ l, s.expired x = false) ∧ s'.now = s.now ∧
      ∀ x ∈ l, s'.item x = s.item x := by
  obtain ⟨s₁, l₁, hpurge, h₁⟩ := h.purge
  obtain ⟨s', l, hhead, h₂⟩ := h₁.listed.listHead
  have hexpired : ∀ x ∈ l₁, s₁.expired x = s.expired x := fun x hx => by
    rw [expired, expired, h₁.now, h₁.item x hx]
  refine ⟨s', l, ?_, h₂.listed, h₂.sublist.trans h₁.sublist, fun x hx => ?_,
    h₂.now.trans h₁.now, fun x hx => ?_⟩
  · simp only [Registry.lookup, hpurge, hhead, Option.bind_eq_bind, Option.bind_some]
    rfl
  · have hx₁ := h₂.sublist.subset hx
    rw [← hexpired x hx₁]
    by_contra hnot
    rw [Bool.not_eq_false] at hnot
    have htail := h₂.old x hx hnot
    rw [hexpired x hx₁, h₁.tail x htail] at hnot
    cases hnot
  · rw [h₂.item x hx, h₁.item x (h₂.sublist.subset hx)]

/-- What `send_udp_packet` sends. -/
theorem Listed.send (h : Listed s own others) : ∃ s' l,
    s.sendUdpPacket = some (s', finish ((l.map s'.record).foldl put
      ((own.map s.record).foldl put (0, [])))) ∧ Purged s s' own others l := by
  obtain ⟨s', l, hhead, hpurged⟩ := h.listHead
  have hlength := h.length_le
  have helements := h.ownTable.elements (n := maxRegistrations) (by omega)
  refine ⟨s', l, ?_, hpurged⟩
  simp only [sendUdpPacket, helements, hhead, Option.bind_eq_bind, Option.bind_some]
  rfl

/-! ### The registrations of other nodes -/

/-- The registrations of others have distinct identifiers, the number of each is the last one that
was accepted, and its timer was set when that was. -/
structure Kept (s : Registry) (own others : List Nat) (log : List Act) : Prop where
  listed : Listed s own others
  ids : ∀ x ∈ others, ∀ y ∈ others, (s.item x).id = (s.item y).id → x = y
  seqno : ∀ x ∈ others, lastAccepted log (s.item x).id = some (s.item x).seqno
  timer : ∀ x ∈ others, (s.item x).timer.start ≤ s.now ∧ (s.item x).timer.interval = lifetime

theorem kept_init (now : Nat) (item : Nat → Registration) : Kept (init now item) [] [] [] where
  listed := listed_init now item
  ids := List.forall_mem_nil _
  seqno := List.forall_mem_nil _
  timer := List.forall_mem_nil _

/-- Registrations may go, and time may pass. -/
theorem Kept.sublist (h : Kept s own others log) (hlisted : Listed s' own' l)
    (hsub : l ⊆ others) (hnow : s.now ≤ s'.now) (hitem : ∀ x ∈ l, s'.item x = s.item x) :
    Kept s' own' l log where
  listed := hlisted
  ids x hx y hy hid := by
    rw [hitem x hx, hitem y hy] at hid
    exact h.ids x (hsub hx) y (hsub hy) hid
  seqno x hx := by
    rw [hitem x hx]
    exact h.seqno x (hsub hx)
  timer x hx := by
    rw [hitem x hx]
    exact ⟨(h.timer x (hsub hx)).1.trans hnow, (h.timer x (hsub hx)).2⟩

theorem Kept.purged (h : Kept s own others log) (hpurged : Purged s s' own others l) :
    Kept s' own l log :=
  h.sublist hpurged.listed hpurged.sublist.subset (Nat.le_of_eq hpurged.now.symm) hpurged.item

/-- The timer of a registration that was set less than 2^32 ticks ago tells whether it is too old. -/
theorem live_of_not_expired {t : Timer} {now : Nat} (hstart : t.start ≤ now)
    (hrecent : now - t.start < 4294967295) (h : t.expired now = false) :
    now < t.start + t.interval.toNat := by
  rw [Timer.expired, decide_eq_false_iff_not, UInt32.not_lt, UInt32.le_iff_toNat_le,
    UInt32.toNat_add, UInt32.toNat_sub] at h
  have hnow : (UInt32.ofNat now).toNat = now % 4294967296 := rfl
  have hset : (UInt32.ofNat t.start).toNat = t.start % 4294967296 := rfl
  rw [hnow, hset, show (1 : UInt32).toNat = 1 from rfl] at h
  omega

theorem Kept.refresh (h : Kept s own others log) (he : e ∈ others) (seqno : UInt8) :
    ∃ s' others' acts, s.refresh e seqno = some (s', acts) ∧ Kept s' own others' (log ++ acts) ∧
      AllRight log acts := by
  have hlast := h.seqno e he
  rw [Registry.refresh]
  by_cases hnewer : seqnoLt (s.item e).seqno seqno = true
  · obtain ⟨pre, post, rfl⟩ := List.append_of_mem he
    have hlength := h.listed.length_le
    rw [List.length_append, List.length_cons] at hlength
    obtain ⟨t, hremove, ht, -⟩ := h.listed.othersTable.remove (n := maxRegistrations) (by omega)
    have hmiddle : (pre ++ e :: post).Perm (e :: (pre ++ post)) := List.perm_middle
    have hnodup := hmiddle.nodup h.listed.othersTable.nodup
    obtain ⟨hnotMem, -⟩ := List.nodup_cons.mp hnodup
    obtain ⟨t', hpush, ht'⟩ := ht.push (n := maxRegistrations) hnotMem
      (by rw [List.length_append]; omega)
    have hperm : (own ++ (pre ++ e :: post)).Perm (own ++ (e :: (pre ++ post))) :=
      List.Perm.append_left own hmiddle
    rw [if_pos hnewer, hremove]
    simp only [Option.bind_eq_bind, Option.bind_some, hpush]
    refine ⟨_, e :: (pre ++ post), [.refreshed (s.item e).id seqno], rfl, ?_,
      ⟨⟨(s.item e).seqno, hlast, hnewer⟩, trivial⟩⟩
    have hself : Function.update s.item e
        { s.item e with seqno := seqno, timer := ⟨s.now, lifetime⟩ } e =
        { s.item e with seqno := seqno, timer := ⟨s.now, lifetime⟩ } :=
      Function.update_self ..
    have hother : ∀ x ∈ pre ++ post, Function.update s.item e
        { s.item e with seqno := seqno, timer := ⟨s.now, lifetime⟩ } x = s.item x := fun x hx =>
      Function.update_of_ne (ne_of_mem_of_not_mem hx hnotMem) _ _
    have hin : ∀ x ∈ pre ++ post, x ∈ pre ++ e :: post := fun x hx =>
      hmiddle.mem_iff.mpr (List.mem_cons_of_mem e hx)
    have hid : ∀ x ∈ pre ++ post, (s.item x).id ≠ (s.item e).id := fun x hx hid =>
      hnotMem (h.ids x (hin x hx) e he hid ▸ hx)
    refine ⟨⟨h.listed.ownTable, ht', h.listed.mem.perm hperm, h.listed.size, fun x hx =>
      h.listed.lt x (hperm.mem_iff.mpr hx)⟩, ?_, ?_, ?_⟩
    · intro x hx y hy hxy
      dsimp only [modify] at hxy
      rcases List.mem_cons.mp hx with hxe | hxl <;> rcases List.mem_cons.mp hy with hye | hyl
      · exact hxe.trans hye.symm
      · rw [hxe, hself, hother y hyl] at hxy
        exact absurd hxy.symm (hid y hyl)
      · rw [hye, hself, hother x hxl] at hxy
        exact absurd hxy (hid x hxl)
      · rw [hother x hxl, hother y hyl] at hxy
        exact h.ids x (hin x hxl) y (hin y hyl) hxy
    · intro x hx
      dsimp only [modify]
      rw [lastAccepted_snoc]
      rcases List.mem_cons.mp hx with rfl | hxl
      · rw [hself]
        exact if_pos rfl
      · rw [hother x hxl]
        exact (if_neg fun heq => hid x hxl heq.symm).trans (h.seqno x (hin x hxl))
    · intro x hx
      dsimp only [modify]
      rcases List.mem_cons.mp hx with rfl | hxl
      · rw [hself]
        exact ⟨Nat.le_refl _, rfl⟩
      · rw [hother x hxl]
        exact h.timer x (hin x hxl)
  · rw [Bool.not_eq_true] at hnewer
    rw [if_neg (by rw [hnewer]; exact Bool.false_ne_true)]
    refine ⟨s, others, _, rfl, ⟨h.listed, h.ids, fun x hx => ?_, h.timer⟩,
      ⟨⟨(s.item e).seqno, hlast, hnewer⟩, trivial⟩⟩
    rw [lastAccepted_snoc]
    exact h.seqno x hx

/-- An unused block. -/
theorem Listed.unused (h : Listed s own others) {m : Memb}
    (halloc : s.registrations.alloc = some (e, m)) : e ∉ own ++ others ∧
      own.length + others.length < maxRegistrations ∧ m.Holds (e :: (own ++ others)) ∧
      m.size = maxRegistrations ∧ e < maxRegistrations := by
  have he : e ∉ own ++ others := fun hmem =>
    Memb.not_mem_of_alloc halloc (h.mem.mem_iff.mpr hmem)
  obtain ⟨hlt, hsize⟩ := Memb.lt_of_alloc halloc
  rw [h.size] at hlt hsize
  refine ⟨he, ?_, h.mem.alloc halloc, hsize, hlt⟩
  have hsub : e :: (own ++ others) ⊆ List.range maxRegistrations := by
    intro x hx
    rcases List.mem_cons.mp hx with rfl | hx
    · exact List.mem_range.mpr hlt
    · exact List.mem_range.mpr (h.lt x hx)
  have hle := (List.subperm_of_subset (List.nodup_cons.mpr ⟨he, h.mem.nodup⟩) hsub).length_le
  rw [List.length_cons, List.length_append, List.length_range] at hle
  exact hle

theorem Kept.create (h : Kept s own others log) {r : Record} (hseqno : r.seqno = 1)
    (hnew : ∀ x ∈ others, (s.item x).id ≠ r.id) :
    ∃ s' others' acts, s.create r = some (s', acts) ∧ Kept s' own others' (log ++ acts) ∧
      AllRight log acts := by
  cases halloc : s.registrations.alloc with
  | none =>
      refine ⟨s, others, [.full r.id r.seqno], by rw [Registry.create, halloc],
        ⟨h.listed, h.ids, fun x hx => ?_, h.timer⟩, trivial, trivial⟩
      rw [lastAccepted_snoc]
      exact h.seqno x hx
  | some b =>
      obtain ⟨e, m⟩ := b
      obtain ⟨he, hlength, hmem, hsize, hlt⟩ := h.listed.unused halloc
      have heothers : e ∉ others := fun hmem => he (List.mem_append_right own hmem)
      obtain ⟨t, hadd, ht⟩ :=
        h.listed.othersTable.add (n := maxRegistrations) heothers (by omega)
      have hperm : (e :: (own ++ others)).Perm (own ++ (others ++ [e])) := by
        rw [← List.append_assoc]
        exact (List.perm_append_singleton e (own ++ others)).symm
      refine ⟨{ s.modify e fun _ => ⟨⟨s.now, lifetime⟩, r.owner, r.id, 1⟩ with
          othersServices := t, registrations := m }, others ++ [e], [.created r.id r.seqno], ?_, ?_,
        trivial, trivial⟩
      · simp only [Registry.create, halloc, hadd, Option.bind_eq_bind, Option.bind_some]
        rfl
      · have hself : Function.update s.item e ⟨⟨s.now, lifetime⟩, r.owner, r.id, 1⟩ e =
            ⟨⟨s.now, lifetime⟩, r.owner, r.id, 1⟩ :=
          Function.update_self ..
        have hother : ∀ x ∈ others, Function.update s.item e
            ⟨⟨s.now, lifetime⟩, r.owner, r.id, 1⟩ x = s.item x := fun x hx =>
          Function.update_of_ne (ne_of_mem_of_not_mem hx heothers) _ _
        refine ⟨⟨h.listed.ownTable, ht, hmem.perm hperm, hsize, fun x hx => ?_⟩, ?_, ?_, ?_⟩
        · rcases List.mem_cons.mp (hperm.mem_iff.mpr hx) with rfl | hx
          · exact hlt
          · exact h.listed.lt x hx
        · intro x hx y hy hxy
          dsimp only [modify] at hxy
          rcases List.mem_append.mp hx with hxl | hxe <;>
            rcases List.mem_append.mp hy with hyl | hye
          · rw [hother x hxl, hother y hyl] at hxy
            exact h.ids x hxl y hyl hxy
          · rw [List.mem_singleton.mp hye, hself, hother x hxl] at hxy
            exact absurd hxy (hnew x hxl)
          · rw [List.mem_singleton.mp hxe, hself, hother y hyl] at hxy
            exact absurd hxy.symm (hnew y hyl)
          · exact (List.mem_singleton.mp hxe).trans (List.mem_singleton.mp hye).symm
        · intro x hx
          dsimp only [modify]
          rw [lastAccepted_snoc]
          rcases List.mem_append.mp hx with hxl | hxe
          · rw [hother x hxl]
            exact (if_neg fun heq => hnew x hxl heq.symm).trans (h.seqno x hxl)
          · rw [List.mem_singleton.mp hxe, hself, hseqno]
            exact if_pos rfl
        · intro x hx
          dsimp only [modify]
          rcases List.mem_append.mp hx with hxl | hxe
          · rw [hother x hxl]
            exact h.timer x hxl
          · rw [List.mem_singleton.mp hxe, hself]
            exact ⟨Nat.le_refl _, rfl⟩

/-! ### Runs -/

/-- A registration comes in for an identifier that is listed, with a registration that is not too
old, or its number is 1, which is the number that is written down for a new one. -/
def MeetsRecord (s : Registry) (r : Record) : Prop :=
  ∀ l, s.othersServices.elements maxRegistrations = some l →
    (∃ e ∈ l, (s.item e).id = r.id ∧ s.expired e = false) ∨ r.seqno = 1

def MeetsRecords : Registry → List Record → Prop
  | _, [] => True
  | s, r :: rs => MeetsRecord s r ∧
    ∀ s' acts, s.handleIncomingReg r = some (s', acts) → MeetsRecords s' rs

/-- The condition of a packet: it has at least one registration or says that it has none, and what
is read from it is as above. -/
def Meets (s : Registry) : Event → Prop
  | .packet buf => (2 ≤ buf.length ∧ (buf[0]? = some 0 ∨ 22 ≤ buf.length)) ∧
    ∀ rs, parseIncomingPacket buf = some rs → MeetsRecords s rs
  | _ => True

def MeetsAll : Registry → List Event → Prop
  | _, [] => True
  | s, ev :: evs => Meets s ev ∧ ∀ s' acts, s.step ev = some (s', acts) → MeetsAll s' evs

theorem Kept.handle (h : Kept s own others log) {r : Record} (hmeets : MeetsRecord s r) :
    ∃ s' others' acts, s.handleIncomingReg r = some (s', acts) ∧
      Kept s' own others' (log ++ acts) ∧ AllRight log acts := by
  have hlength := h.listed.length_le
  have helements := h.listed.othersTable.elements (n := maxRegistrations) (by omega)
  obtain ⟨s₁, l, hhead, hpurged⟩ := h.listed.listHead
  have hkept := h.purged hpurged
  cases hfind : l.find? fun e => (s₁.item e).id = r.id with
  | some e =>
      obtain ⟨s', others', acts, hrefresh, hresult⟩ :=
        hkept.refresh (List.mem_of_find?_eq_some hfind) r.seqno
      refine ⟨s', others', acts, ?_, hresult⟩
      simp only [handleIncomingReg, hhead, hfind, hrefresh, Option.bind_eq_bind, Option.bind_some]
  | none =>
      have hnew : ∀ x ∈ l, (s₁.item x).id ≠ r.id := fun x hx => by
        simpa using List.find?_eq_none.mp hfind x hx
      have hseqno : r.seqno = 1 := by
        refine (hmeets others helements).resolve_left ?_
        rintro ⟨e, he, hid, hlive⟩
        have hel := hpurged.live e he hlive
        exact hnew e hel (by rw [hpurged.item e hel, hid])
      obtain ⟨s', others', acts, hcreate, hresult⟩ := hkept.create hseqno hnew
      refine ⟨s', others', acts, ?_, hresult⟩
      simp only [handleIncomingReg, hhead, hfind, hcreate, Option.bind_eq_bind, Option.bind_some]

theorem Kept.handleAll (h : Kept s own others log) {rs : List Record}
    (hmeets : MeetsRecords s rs) : ∃ s' others' acts, s.handleAll rs = some (s', acts) ∧
      Kept s' own others' (log ++ acts) ∧ AllRight log acts := by
  induction rs generalizing s others log with
  | nil => exact ⟨s, others, [], rfl, by rwa [List.append_nil], trivial⟩
  | cons r rs ih =>
      obtain ⟨s₁, others₁, acts₁, hhandle, hkept, hright⟩ := h.handle hmeets.1
      obtain ⟨s', others', acts, hall, hkept', hright'⟩ := ih hkept (hmeets.2 s₁ acts₁ hhandle)
      refine ⟨s', others', acts₁ ++ acts, ?_, ?_, hright.append hright'⟩
      · simp only [Registry.handleAll, hhandle, hall, Option.bind_eq_bind, Option.bind_some]
        rfl
      · rwa [← List.append_assoc]

theorem Kept.register (h : Kept s own others log) (id : UInt8) (addr : IpAddr) :
    ∃ s' own', s.register id addr = some s' ∧ Kept s' own' others log := by
  have hlength := h.listed.length_le
  have helements := h.listed.ownTable.elements (n := maxRegistrations) (by omega)
  simp only [Registry.register, helements, Option.bind_eq_bind, Option.bind_some]
  split_ifs
  · exact ⟨s, own, rfl, h⟩
  · cases halloc : s.registrations.alloc with
    | none => exact ⟨s, own, rfl, h⟩
    | some b =>
        obtain ⟨e, m⟩ := b
        obtain ⟨he, hlength, hmem, hsize, hlt⟩ := h.listed.unused halloc
        have heown : e ∉ own := fun hmem => he (List.mem_append_left others hmem)
        obtain ⟨t, hpush, ht⟩ :=
          h.listed.ownTable.push (n := maxRegistrations) heown (by omega)
        simp only [hpush, Option.bind_some]
        refine ⟨_, e :: own, rfl, h.sublist ⟨ht, h.listed.othersTable, hmem, hsize, fun x hx => ?_⟩
          (List.Subset.refl others) (Nat.le_refl _) fun x hx => ?_⟩
        · rcases List.mem_cons.mp hx with rfl | hx
          · exact hlt
          · exact h.listed.lt x hx
        · have hne : x ≠ e := fun hxe => he (List.mem_append_right own (hxe ▸ hx))
          exact modify_item_of_ne s hne fun _ => ⟨⟨s.now, lifetime / 2⟩, addr, id, 1⟩

theorem Kept.step (h : Kept s own others log) {ev : Event} (hmeets : Meets s ev) :
    ∃ s' own' others' acts, s.step ev = some (s', acts) ∧ Kept s' own' others' (log ++ acts) ∧
      AllRight log acts := by
  cases ev with
  | elapse ticks =>
      refine ⟨{ s with now := s.now + ticks }, own, others, [], rfl, ?_, trivial⟩
      rw [List.append_nil]
      exact h.sublist (h.listed.congr rfl rfl rfl) (List.Subset.refl others) (Nat.le_add_right _ _)
        fun x _ => rfl
  | register id addr =>
      obtain ⟨s', own', hregister, hkept⟩ := h.register id addr
      exact ⟨s', own', others, [], by rw [Registry.step, hregister, Option.map_some],
        by rwa [List.append_nil], trivial⟩
  | packet buf =>
      obtain ⟨rs, hparse⟩ := Option.isSome_iff_exists.mp ((parse_isSome_iff buf).mpr hmeets.1)
      obtain ⟨s', others', acts, hall, hresult⟩ := h.handleAll (hmeets.2 rs hparse)
      exact ⟨s', own, others', acts, by rw [Registry.step, hparse, Option.bind_some, hall], hresult⟩
  | lookup id =>
      obtain ⟨s', l, hlookup, hlisted, hsub, -, hnow, hitem⟩ := h.listed.lookup id
      refine ⟨s', own, l, [], by rw [Registry.step, hlookup, Option.map_some], ?_, trivial⟩
      rw [List.append_nil]
      exact h.sublist hlisted hsub.subset (Nat.le_of_eq hnow.symm) hitem
  | listHead =>
      obtain ⟨s', l, hhead, hpurged⟩ := h.listed.listHead
      refine ⟨s', own, l, [], by rw [Registry.step, hhead, Option.map_some], ?_, trivial⟩
      rw [List.append_nil]
      exact h.purged hpurged
  | send =>
      obtain ⟨s', l, hsend, hpurged⟩ := h.listed.send
      refine ⟨s', own, l, [], by rw [Registry.step, hsend, Option.map_some], ?_, trivial⟩
      rw [List.append_nil]
      exact h.purged hpurged

theorem Kept.run (h : Kept s own others log) {evs : List Event} (hmeets : MeetsAll s evs) :
    ∃ s' own' others' acts, s.run evs = some (s', acts) ∧ Kept s' own' others' (log ++ acts) ∧
      AllRight log acts := by
  induction evs generalizing s own others log with
  | nil => exact ⟨s, own, others, [], rfl, by rwa [List.append_nil], trivial⟩
  | cons ev evs ih =>
      obtain ⟨s₁, own₁, others₁, acts₁, hstep, hkept, hright⟩ := h.step hmeets.1
      obtain ⟨s', own', others', acts, hrun, hkept', hright'⟩ :=
        ih hkept (hmeets.2 s₁ acts₁ hstep)
      refine ⟨s', own', others', acts₁ ++ acts, ?_, ?_, hright.append hright'⟩
      · simp only [Registry.run, hstep, hrun, Option.bind_eq_bind, Option.bind_some]
        rfl
      · rwa [← List.append_assoc]

/-- The registrations in the message that `s` sends; `s'` and `l` are what is left after the walk over
the registrations of others. -/
def sent (s s' : Registry) (own l : List Nat) : List Record :=
  (own.map s.record ++ l.map s'.record).take 4

/-- A registration that has not been used. -/
def unusedItem : Registration := ⟨⟨0, 0⟩, Vector.replicate 16 0, 0, 0⟩

end Registry

end Calipso.Apps
