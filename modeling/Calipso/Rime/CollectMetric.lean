import Calipso.Rime.CollectNeighbor
import Calipso.Wire.Best

/-!
# The metric of a collection tree

What the functions of `collect-neighbor.c` do to the lists of neighbors, which neighbor is the best
one, and `metric_of_run`.
-/

namespace Calipso.Rime.CollectNeighbor

open Lib Memory Net Collect Wire

/-! ### Link estimates -/

/-- A link estimate has not been made, or is that of 1 to 255 transmissions. -/
def LinkEstimate.Fair (le : LinkEstimate) : Prop :=
  le.numEstimates = 0 ∨ 8 ≤ le.etxAccumulator.toNat ∧ le.etxAccumulator.toNat ≤ 255 * 8

namespace LinkEstimate

variable {le : LinkEstimate}

theorem fair_new : new.Fair := .inl rfl

theorem toNat_units (tx : UInt8) : (tx.toUInt32 * 8).toNat = tx.toNat * 8 := by
  have hlt := tx.toNat_lt
  rw [UInt32.toNat_mul, UInt8.toNat_toUInt32]
  exact Nat.mod_eq_of_lt (by simp; omega)

/-- A weighted average of two numbers of 1 to 255 transmissions. -/
theorem average_fair {tx : UInt8} (htx : tx ≠ 0) {acc : UInt32} (hge : 8 ≤ acc.toNat)
    (hle : acc.toNat ≤ 255 * 8) :
    8 ≤ ((tx.toUInt32 * 8 * (3 * 8 / 8) + acc * (8 - 3 * 8 / 8)) / 8).toNat ∧
      ((tx.toUInt32 * 8 * (3 * 8 / 8) + acc * (8 - 3 * 8 / 8)) / 8).toNat ≤ 255 * 8 := by
  have hpos : 0 < tx.toNat := Nat.pos_of_ne_zero fun h0 => htx (UInt8.toNat_inj.mp h0)
  have hlt := tx.toNat_lt
  have hnew : (tx.toUInt32 * 8 * (3 * 8 / 8)).toNat = tx.toNat * 8 * 3 := by
    rw [UInt32.toNat_mul, toNat_units]
    exact Nat.mod_eq_of_lt (by simp; omega)
  have hold : (acc * (8 - 3 * 8 / 8)).toNat = acc.toNat * 5 := by
    rw [UInt32.toNat_mul]
    exact Nat.mod_eq_of_lt (by simp; omega)
  have hsum : (tx.toUInt32 * 8 * (3 * 8 / 8) + acc * (8 - 3 * 8 / 8)).toNat =
      tx.toNat * 8 * 3 + acc.toNat * 5 := by
    rw [UInt32.toNat_add, hnew, hold]
    exact Nat.mod_eq_of_lt (by omega)
  rw [UInt32.toNat_div, hsum, show (8 : UInt32).toNat = 8 from rfl]
  omega

theorem Fair.updateTx (h : le.Fair) (tx : UInt8) : (le.updateTx tx).Fair := by
  unfold LinkEstimate.updateTx
  by_cases htx : tx = 0
  · rw [if_pos htx]
    exact h
  · rw [if_neg htx]
    right
    by_cases hzero : le.numEstimates = 0
    · have hpos : 0 < tx.toNat := Nat.pos_of_ne_zero fun h0 => htx (UInt8.toNat_inj.mp h0)
      have hlt := tx.toNat_lt
      have hunits := toNat_units tx
      simp only [if_pos hzero]
      exact average_fair htx (by omega) (by omega)
    · obtain ⟨hge, hle⟩ := h.resolve_left hzero
      simp only [if_neg hzero]
      exact average_fair htx hge hle

/-- An estimate is at least that of one transmission, and at most that of 255. -/
theorem Fair.estimate (h : le.Fair) : 8 ≤ le.estimate.toNat ∧ le.estimate.toNat ≤ 2040 := by
  unfold LinkEstimate.estimate
  split_ifs with hzero
  · decide
  · obtain h0 | ⟨hge, hle⟩ := h
    · exact absurd h0 hzero
    · rw [UInt32.toNat_toUInt16]
      omega

end LinkEstimate

namespace Node

variable {κ : Type} {s s' : Node κ} {l : κ → List Nat} {pre post : List Nat}
  {k : κ} {e : Nat} {r : Nat}

/-! ### The lists -/

/-- The neighbors of `l` are listed, and their blocks are those in use. -/
structure Listed (s : Node κ) (l : κ → List Nat) : Prop where
  table : ∀ k, (s.list k).Holds (l k)
  used : ∀ e, e ∈ s.mem.used ↔ ∃ k, e ∈ l k
  disjoint : ∀ k k' e, e ∈ l k → e ∈ l k' → k = k'
  size : s.mem.size = maxCollectNeighbors
  lt : ∀ k, ∀ e ∈ l k, e < maxCollectNeighbors

theorem listed_init (neighbor : Nat → Neighbor) (parent : κ → RimeAddr) (isRouter : κ → Bool) :
    Listed (init neighbor parent isRouter) fun _ => [] where
  table _ := ⟨rfl, List.nodup_nil⟩
  used e := iff_of_false (Finset.notMem_empty e) fun ⟨_, he⟩ => List.not_mem_nil he
  disjoint _ _ _ he := absurd he List.not_mem_nil
  size := rfl
  lt _ _ he := absurd he List.not_mem_nil

theorem Listed.length_le (h : Listed s l) (k : κ) : (l k).length ≤ maxCollectNeighbors := by
  have hsub : l k ⊆ List.range maxCollectNeighbors := fun e he => List.mem_range.mpr (h.lt k e he)
  have hle := (List.subperm_of_subset (h.table k).nodup hsub).length_le
  rwa [List.length_range] at hle

theorem Listed.neighbors (h : Listed s l) (k : κ) : s.neighbors k = some (l k) :=
  (h.table k).elements (h.length_le k)

/-- What is listed does not depend on the neighbors and on the parents. -/
theorem Listed.congr (h : Listed s l) (hlist : s'.list = s.list) (hmem : s'.mem = s.mem) :
    Listed s' l where
  table k := hlist ▸ h.table k
  used e := hmem ▸ h.used e
  disjoint := h.disjoint
  size := hmem ▸ h.size
  lt := h.lt

theorem modify_neighbor_self (s : Node κ) (e : Nat) (f : Neighbor → Neighbor) :
    (s.modify e f).neighbor e = f (s.neighbor e) :=
  Function.update_self ..

theorem modify_neighbor_of_ne (s : Node κ) {x : Nat} (hx : x ≠ e) (f : Neighbor → Neighbor) :
    (s.modify e f).neighbor x = s.neighbor x :=
  Function.update_of_ne hx _ _

/-! ### Ageing -/

/-- A neighbor is as it was, but for a link estimate that may begin anew. -/
def Renewed (n n' : Neighbor) : Prop := n' = n ∨ n' = { n with le := LinkEstimate.new, leAge := 0 }

theorem Renewed.refl (n : Neighbor) : Renewed n n := .inl rfl

theorem Renewed.trans {n n' n'' : Neighbor} (h : Renewed n n') (h' : Renewed n' n'') :
    Renewed n n'' := by
  rcases h with rfl | rfl <;> rcases h' with rfl | rfl
  · exact .inl rfl
  · exact .inr rfl
  · exact .inr rfl
  · exact .inr rfl

theorem Renewed.age {n n' : Neighbor} (h : Renewed n n') : n'.age = n.age := by
  rcases h with rfl | rfl <;> rfl

theorem Renewed.addr {n n' : Neighbor} (h : Renewed n n') : n'.addr = n.addr := by
  rcases h with rfl | rfl <;> rfl

theorem Renewed.fair {n n' : Neighbor} (h : Renewed n n') (hle : n.le.Fair) : n'.le.Fair := by
  rcases h with rfl | rfl
  · exact hle
  · exact LinkEstimate.fair_new

theorem renewed_renew (s : Node κ) (e x : Nat) :
    Renewed (s.neighbor x) ((s.renew e).neighbor x) := by
  unfold renew
  split_ifs
  · by_cases hx : x = e
    · rw [hx, modify_neighbor_self]
      exact .inr rfl
    · rw [modify_neighbor_of_ne s hx]
      exact .inl rfl
  · exact .inl rfl

theorem Listed.renew (h : Listed s l) (e : Nat) : Listed (s.renew e) l := by
  unfold Node.renew
  split_ifs
  · exact h.congr rfl rfl
  · exact h

/-- A neighbor has not reached the greatest age. -/
def alive (s : Node κ) (e : Nat) : Bool := (s.neighbor e).age ≠ maxAge

theorem alive_congr (h : ∀ e, Renewed (s.neighbor e) (s'.neighbor e)) : s'.alive = s.alive := by
  funext e
  rw [alive, alive, (h e).age]

theorem conn_renew (s : Node κ) (e : Nat) : (s.renew e).conn = s.conn := by
  unfold renew
  split_ifs <;> rfl

variable [DecidableEq κ]

/-- A neighbor is taken from the list and its block given back. -/
theorem Listed.release (h : Listed s l) (hk : l k = pre ++ e :: post) {list : Lib.Lists Nat}
    (hlist : list.Holds (pre ++ post)) :
    Listed { s.setList k list with mem := s.mem.free e } (Function.update l k (pre ++ post)) := by
  have hperm : (pre ++ e :: post).Perm (e :: (pre ++ post)) := List.perm_middle
  have hnotMem := (List.nodup_cons.mp (hperm.nodup (hk ▸ (h.table k).nodup))).1
  have hmem : ∀ x, x ∈ l k ↔ x = e ∨ x ∈ pre ++ post := fun x => by
    rw [hk, hperm.mem_iff, List.mem_cons]
  have hsub : ∀ k' x, x ∈ Function.update l k (pre ++ post) k' → x ∈ l k' := by
    intro k' x hx
    by_cases hkk : k' = k
    · subst hkk
      rw [Function.update_self] at hx
      exact (hmem x).mpr (.inr hx)
    · rwa [Function.update_of_ne hkk] at hx
  refine ⟨fun k' => ?_, fun x => ?_, fun k₁ k₂ x h₁ h₂ =>
    h.disjoint k₁ k₂ x (hsub k₁ x h₁) (hsub k₂ x h₂), h.size,
    fun k' x hx => h.lt k' x (hsub k' x hx)⟩
  · by_cases hkk : k' = k
    · subst hkk
      show (Function.update s.list k' list k').Holds _
      rw [Function.update_self, Function.update_self]
      exact hlist
    · show (Function.update s.list k list k').Holds _
      rw [Function.update_of_ne hkk, Function.update_of_ne hkk]
      exact h.table k'
  · show x ∈ s.mem.used.erase e ↔ _
    rw [Finset.mem_erase, h.used]
    constructor
    · rintro ⟨hne, k', hx⟩
      refine ⟨k', ?_⟩
      by_cases hkk : k' = k
      · subst hkk
        rw [Function.update_self]
        exact ((hmem x).mp hx).resolve_left hne
      · rwa [Function.update_of_ne hkk]
    · rintro ⟨k', hx⟩
      refine ⟨?_, k', hsub k' x hx⟩
      rintro rfl
      by_cases hkk : k' = k
      · subst hkk
        rw [Function.update_self] at hx
        exact hnotMem hx
      · exact hkk (h.disjoint k' k x (hsub k' x hx) ((hmem x).mpr (.inl rfl)))

theorem Listed.unlink (h : Listed s l) (hk : l k = pre ++ e :: post) : ∃ list,
    (s.list k).remove maxCollectNeighbors e = some list ∧ list.Holds (pre ++ post) ∧
      Listed { s.setList k list with mem := s.mem.free e }
        (Function.update l k (pre ++ post)) := by
  have htable := h.table k
  have hlength := h.length_le k
  rw [hk] at htable hlength
  rw [List.length_append, List.length_cons] at hlength
  obtain ⟨list, hremove, hlist, -⟩ := htable.remove (n := maxCollectNeighbors) (by omega)
  exact ⟨list, hremove, hlist, h.release hk hlist⟩

/-! ### Ageing -/

/-- After a removal the loop goes on behind the head, so that the head stays, whatever its age, and
of the neighbors behind it those that have not reached the greatest age. -/
theorem Listed.periodicFrom (h : Listed s l) {a : Nat} {mid rest : List Nat}
    (hk : l k = a :: (mid ++ rest)) (hmid : ∀ x ∈ mid, s.alive x = true)
    (hr : (l k).length * 9 + rest.length ≤ r) :
    ∃ s', Node.periodicFrom k r rest.head? s = some s' ∧
      Listed s' (Function.update l k (a :: (mid ++ rest).filter s.alive)) ∧
      (∀ e, Renewed (s.neighbor e) (s'.neighbor e)) ∧ s'.conn = s.conn := by
  induction r generalizing s l mid rest with
  | zero =>
      rw [hk, List.length_cons] at hr
      omega
  | succ r ih =>
      cases rest with
      | nil =>
          have hsame : Function.update l k (a :: (mid ++ []).filter s.alive) = l := by
            rw [List.append_nil, List.filter_eq_self.mpr hmid, Function.update_eq_self_iff, hk,
              List.append_nil]
          rw [hsame]
          exact ⟨s, rfl, h, fun e => Renewed.refl _, rfl⟩
      | cons t rest =>
          have hrenewed := renewed_renew s t
          have halive := alive_congr hrenewed
          have hlength := h.length_le k
          rw [hk, List.length_cons, List.length_append, List.length_cons] at hr
          rw [hk, List.length_cons, List.length_append, List.length_cons,
            maxCollectNeighbors] at hlength
          rw [List.head?_cons, Node.periodicFrom]
          by_cases hdead : ((s.renew t).neighbor t).age = maxAge
          · have hkt : l k = (a :: mid) ++ t :: rest := hk
            obtain ⟨list, hremove, hlist, hlisted⟩ := (h.renew t).unlink hkt
            have hk' : Function.update l k (a :: mid ++ rest) k = a :: ([] ++ (mid ++ rest)) := by
              rw [Function.update_self]
              rfl
            have hrounds : (Function.update l k (a :: mid ++ rest) k).length * 9 +
                (mid ++ rest).length ≤ r := by
              rw [hk', List.nil_append, List.length_cons, List.length_append]
              omega
            obtain ⟨s', hrun, hlisted', hrenewed', hconn⟩ :=
              ih hlisted hk' (List.forall_mem_nil _) hrounds
            have hfilter : (mid ++ t :: rest).filter s.alive = (mid ++ rest).filter s.alive := by
              have ht : ¬ s.alive t = true := by
                rw [← halive]
                simpa [alive] using hdead
              rw [List.filter_append, List.filter_append, List.filter_cons_of_neg ht]
            refine ⟨s', ?_, ?_, fun e => (hrenewed e).trans (hrenewed' e),
              hconn.trans (conn_renew s t)⟩
            · simp only [if_pos hdead, hremove, Option.bind_some, hlist.second]
              exact hrun
            · rw [hfilter, ← halive]
              rwa [List.nil_append, Function.update_idem] at hlisted'
          · have hnext : ((s.renew t).list k).next t = rest.head? := by
              have htable := (h.renew t).table k
              rw [hk] at htable
              exact (htable.linked.next_eq (a :: mid)).head_eq
            have hk' : l k = a :: (mid ++ [t] ++ rest) := by
              rw [hk, List.append_assoc]
              rfl
            have hmid' : ∀ x ∈ mid ++ [t], (s.renew t).alive x = true := by
              intro x hx
              rcases List.mem_append.mp hx with hx | hx
              · rw [halive]
                exact hmid x hx
              · rw [List.mem_singleton.mp hx]
                simpa [alive] using hdead
            have hrounds : (l k).length * 9 + rest.length ≤ r := by
              rw [hk, List.length_cons, List.length_append, List.length_cons]
              omega
            obtain ⟨s', hrun, hlisted', hrenewed', hconn⟩ := ih (h.renew t) hk' hmid' hrounds
            refine ⟨s', ?_, ?_, fun e => (hrenewed e).trans (hrenewed' e),
              hconn.trans (conn_renew s t)⟩
            · simp only [if_neg hdead, hnext]
              exact hrun
            · rwa [halive, List.append_assoc] at hlisted'

/-- The neighbors that are left when the loop is at its end. -/
def survivors (p : Nat → Bool) : List Nat → List Nat
  | [] => []
  | a :: l => if p a then a :: l.filter p else
    match l with
    | [] => []
    | b :: l => b :: l.filter p

/-- What the whole second loop leaves: if the first neighbor goes, the second one is not looked
at. -/
theorem Listed.periodicFrom_head (h : Listed s l) (k : κ) :
    ∃ s', Node.periodicFrom k (maxCollectNeighbors * (maxCollectNeighbors + 2))
        (s.list k).head s = some s' ∧
      Listed s' (Function.update l k (survivors s.alive (l k))) ∧
      (∀ e, Renewed (s.neighbor e) (s'.neighbor e)) ∧ s'.conn = s.conn := by
  have hlength := h.length_le k
  rw [maxCollectNeighbors] at *
  rw [(h.table k).linked.head_eq]
  cases hk : l k with
  | nil =>
      have hsame : Function.update l k (survivors s.alive []) = l := by
        rw [Function.update_eq_self_iff, hk]
        rfl
      rw [hsame]
      exact ⟨s, rfl, h, fun e => Renewed.refl _, rfl⟩
  | cons a m =>
      rw [hk, List.length_cons] at hlength
      have hrenewed := renewed_renew s a
      have halive := alive_congr hrenewed
      rw [List.head?_cons, show 8 * (8 + 2) = 79 + 1 from rfl, Node.periodicFrom]
      by_cases hdead : ((s.renew a).neighbor a).age = maxAge
      · have ha : s.alive a = false := by
          rw [← halive]
          simpa [alive] using hdead
        have hka : l k = [] ++ a :: m := hk
        obtain ⟨list, hremove, hlist, hlisted⟩ := (h.renew a).unlink hka
        rw [List.nil_append] at hlist hlisted
        simp only [if_pos hdead, hremove, Option.bind_some, hlist.second]
        cases m with
        | nil =>
            rw [show survivors s.alive [a] = [] by rw [survivors, ha]; rfl]
            exact ⟨_, rfl, hlisted, hrenewed, conn_renew s a⟩
        | cons b m =>
            have hk' : Function.update l k (b :: m) k = b :: ([] ++ m) := Function.update_self ..
            have hrounds : (Function.update l k (b :: m) k).length * 9 + m.length ≤ 79 := by
              rw [Function.update_self, List.length_cons]
              rw [List.length_cons] at hlength
              omega
            obtain ⟨s', hrun, hlisted', hrenewed', hconn⟩ :=
              hlisted.periodicFrom hk' (List.forall_mem_nil _) hrounds
            rw [List.nil_append, Function.update_idem] at hlisted'
            rw [show survivors s.alive (a :: b :: m) = b :: m.filter s.alive by
              rw [survivors, ha]; rfl, ← halive]
            exact ⟨s', hrun, hlisted', fun e => (hrenewed e).trans (hrenewed' e),
              hconn.trans (conn_renew s a)⟩
      · have ha : s.alive a = true := by
          rw [← halive]
          simpa [alive] using hdead
        have hnext : ((s.renew a).list k).next a = m.head? := by
          have htable := (h.renew a).table k
          rw [hk] at htable
          exact htable.linked.2.head_eq
        have hk' : l k = a :: ([] ++ m) := hk
        have hrounds : (l k).length * 9 + m.length ≤ 79 := by
          rw [hk, List.length_cons]
          omega
        obtain ⟨s', hrun, hlisted', hrenewed', hconn⟩ :=
          (h.renew a).periodicFrom hk' (List.forall_mem_nil _) hrounds
        rw [List.nil_append, halive] at hlisted'
        simp only [if_neg hdead, hnext]
        rw [show survivors s.alive (a :: m) = a :: m.filter s.alive by
          cases m <;> exact if_pos ha]
        exact ⟨s', hrun, hlisted', fun e => (hrenewed e).trans (hrenewed' e),
          hconn.trans (conn_renew s a)⟩

omit [DecidableEq κ] in
/-- The first loop of `periodic`. -/
theorem foldl_older (s : Node κ) {m : List Nat} (hm : m.Nodup) :
    (m.foldl (fun s e => s.modify e older) s).list = s.list ∧
      (m.foldl (fun s e => s.modify e older) s).mem = s.mem ∧
      (m.foldl (fun s e => s.modify e older) s).conn = s.conn ∧
      (∀ x ∈ m, (m.foldl (fun s e => s.modify e older) s).neighbor x = older (s.neighbor x)) ∧
      ∀ x, x ∉ m → (m.foldl (fun s e => s.modify e older) s).neighbor x = s.neighbor x := by
  induction m generalizing s with
  | nil => exact ⟨rfl, rfl, rfl, List.forall_mem_nil _, fun x _ => rfl⟩
  | cons e m ih =>
      obtain ⟨he, hm⟩ := List.nodup_cons.mp hm
      obtain ⟨hlist, hmem, hconn, hin, hout⟩ := ih (s.modify e older) hm
      rw [List.foldl_cons]
      refine ⟨hlist, hmem, hconn, fun x hx => ?_, fun x hx => ?_⟩
      · rcases List.mem_cons.mp hx with rfl | hx
        · rw [hout x he, modify_neighbor_self]
        · rw [hin x hx, modify_neighbor_of_ne s (ne_of_mem_of_not_mem hx he)]
      · have hne : x ≠ e := fun hxe => hx (hxe ▸ List.mem_cons_self)
        rw [hout x fun hmem => hx (List.mem_cons_of_mem e hmem), modify_neighbor_of_ne s hne]

/-- A neighbor has not reached the greatest age a tick later. -/
def Stays (n : Neighbor) : Prop := n.age + 1 ≠ maxAge

instance (n : Neighbor) : Decidable (Stays n) := inferInstanceAs (Decidable (_ ≠ _))

/-- A tick: all neighbors of the list get older, and those are left that the second loop leaves. -/
theorem Listed.periodic (h : Listed s l) (k : κ) : ∃ s', s.periodic k = some s' ∧
    Listed s' (Function.update l k (survivors (fun e => Stays (s.neighbor e)) (l k))) ∧
    (∀ e ∈ l k, Renewed (older (s.neighbor e)) (s'.neighbor e)) ∧
    (∀ e, e ∉ l k → Renewed (s.neighbor e) (s'.neighbor e)) ∧ s'.conn = s.conn := by
  obtain ⟨hlist, hmem, hconn, hin, hout⟩ := foldl_older s (h.table k).nodup
  have hlisted : Listed ((l k).foldl (fun s e => s.modify e older) s) l := h.congr hlist hmem
  obtain ⟨s', hrun, hlisted', hrenewed, hconn'⟩ := hlisted.periodicFrom_head k
  refine ⟨s', ?_, ?_, fun e he => ?_, fun e he => ?_, hconn'.trans hconn⟩
  · simp only [Node.periodic, h.neighbors k, Option.bind_eq_bind, Option.bind_some]
    exact hrun
  · have hsame : survivors ((l k).foldl (fun s e => s.modify e older) s).alive (l k) =
        survivors (fun e => Stays (s.neighbor e)) (l k) := by
      have halive : ∀ e ∈ l k, ((l k).foldl (fun s e => s.modify e older) s).alive e =
          decide (Stays (s.neighbor e)) := fun e he => by
        rw [alive, hin e he]
        rfl
      generalize l k = m at halive
      rcases m with _ | ⟨a, _ | ⟨b, m⟩⟩
      · rfl
      · simp only [survivors, halive a (by simp), List.filter_nil]
      · simp only [survivors, halive a (by simp)]
        have hbehind : (b :: m).filter (Node.alive ((a :: b :: m).foldl
            (fun s e => s.modify e older) s)) = (b :: m).filter fun e => Stays (s.neighbor e) :=
          List.filter_congr fun x hx => halive x (List.mem_cons_of_mem a hx)
        have hlast : m.filter (Node.alive ((a :: b :: m).foldl
            (fun s e => s.modify e older) s)) = m.filter fun e => Stays (s.neighbor e) :=
          List.filter_congr fun x hx =>
            halive x (List.mem_cons_of_mem a (List.mem_cons_of_mem b hx))
        rw [hbehind, hlast]
    rwa [hsame] at hlisted'
  · rw [← hin e he]
    exact hrenewed e
  · rw [← hout e he]
    exact hrenewed e

/-- The tick leaves the neighbors that stay if and only if the first two do not both go. -/
theorem survivors_eq_iff (p : Nat → Bool) (m : List Nat) : survivors p m = m.filter p ↔
    ¬∃ a b rest, m = a :: b :: rest ∧ p a = false ∧ p b = false := by
  rcases m with _ | ⟨a, _ | ⟨b, m⟩⟩
  · exact iff_of_true rfl fun ⟨a, b, rest, hm, _⟩ => by cases hm
  · refine iff_of_true ?_ fun ⟨a, b, rest, hm, _⟩ => by cases hm
    cases ha : p a <;> simp [survivors, ha]
  · cases ha : p a with
    | true =>
        refine iff_of_true ?_ ?_
        · rw [survivors, if_pos ha, List.filter_cons_of_pos ha]
        · rintro ⟨a', b', rest, hm, ha', -⟩
          obtain rfl := (List.cons_eq_cons.mp hm).1
          rw [ha] at ha'
          cases ha'
    | false =>
        have hleft : survivors p (a :: b :: m) = b :: m.filter p := by
          rw [survivors, ha]
          rfl
        rw [hleft, List.filter_cons_of_neg (by rw [ha]; exact Bool.false_ne_true)]
        cases hb : p b with
        | true =>
            refine iff_of_true (by rw [List.filter_cons_of_pos hb]) ?_
            rintro ⟨a', b', rest, hm, -, hb'⟩
            obtain rfl := (List.cons_eq_cons.mp (List.cons_eq_cons.mp hm).2).1
            rw [hb] at hb'
            cases hb'
        | false =>
            refine iff_of_false (fun heq => ?_) fun hnot => hnot ⟨a, b, m, rfl, ha, hb⟩
            have hmem : b ∈ (b :: m).filter p := heq ▸ List.mem_cons_self
            rw [(List.mem_filter.mp hmem).2] at hb
            cases hb

end Node

/-! ### The best neighbor -/

/-- The metric of a neighbor and the link estimate, added without loss. -/
def Neighbor.exact (n : Neighbor) : Nat := n.rtmetric.toNat + n.le.estimate.toNat

/-- The sum for a neighbor gives a metric as it should be. -/
def Neighbor.Sound (n : Neighbor) : Prop :=
  n.rtmetricLinkEstimate = 0 ∨ n.rtmetricLinkEstimate = rtmetricMax ∨ n.exact < rtmetricMax.toNat

theorem Neighbor.sum_toNat (n : Neighbor) :
    n.rtmetricLinkEstimate.toNat = n.exact % 65536 :=
  UInt16.toNat_add _ _

theorem Neighbor.sum_le (n : Neighbor) : n.rtmetricLinkEstimate.toNat ≤ n.exact :=
  n.sum_toNat ▸ Nat.mod_le _ _

theorem Neighbor.sum_eq {n : Neighbor} (h : n.exact < 65536) :
    n.rtmetricLinkEstimate.toNat = n.exact :=
  n.sum_toNat.trans (Nat.mod_eq_of_lt h)

namespace Node

variable {κ : Type} {s s' : Node κ} {l : κ → List Nat} {m pre post : List Nat} {k : κ} {e : Nat}

/-- The best neighbor has the least exact sum, which is below the greatest metric, and there is one
if there is any such sum. -/
def BestRight (s : Node κ) (m : List Nat) (best : Option Nat) : Prop :=
  (best = none ↔ ∀ x ∈ m, rtmetricMax.toNat ≤ (s.neighbor x).exact) ∧
    ∀ e, best = some e → e ∈ m ∧ (s.neighbor e).exact < rtmetricMax.toNat ∧
      ∀ x ∈ m, (s.neighbor e).exact ≤ (s.neighbor x).exact

/-- A neighbor whose sum wraps to something below the greatest metric comes behind one whose sum
does not wrap and is less, or is as great and comes first. -/
def MeetsBest (s : Node κ) (m : List Nat) : Prop :=
  ∀ x ∈ m, 65536 ≤ (s.neighbor x).exact → (s.neighbor x).rtmetricLinkEstimate < rtmetricMax →
    ∃ y ∈ m, (s.neighbor y).exact < 65536 ∧
      ((s.neighbor y).exact < (s.neighbor x).rtmetricLinkEstimate.toNat ∨
        (s.neighbor y).exact = (s.neighbor x).rtmetricLinkEstimate.toNat ∧ [y, x].Sublist m)

/-- What the loop of `collect_neighbor_list_best` finds: the first neighbor with the least sum. -/
theorem foldl_better (s : Node κ) (m : List Nat) :
    ((m.foldl s.better (rtmetricMax, none)).2 = none ∧
      ∀ x ∈ m, rtmetricMax.toNat ≤ (s.neighbor x).rtmetricLinkEstimate.toNat) ∨
    ∃ pre e post, m = pre ++ e :: post ∧
      (m.foldl s.better (rtmetricMax, none)).2 = some e ∧
      (s.neighbor e).rtmetricLinkEstimate.toNat < rtmetricMax.toNat ∧
      (∀ x ∈ pre, (s.neighbor e).rtmetricLinkEstimate.toNat <
        (s.neighbor x).rtmetricLinkEstimate.toNat) ∧
      ∀ x ∈ post, (s.neighbor e).rtmetricLinkEstimate.toNat ≤
        (s.neighbor x).rtmetricLinkEstimate.toNat := by
  rcases foldl_keepLeast (p := fun _ => True)
      (f := fun e => (s.neighbor e).rtmetricLinkEstimate) (fun _ _ => UInt16.lt_iff_toNat_lt) m
      (rtmetricMax, none) with ⟨hkept, hall⟩ | ⟨pre, e, post, hm, hfound, -, hlt, hpre, hpost⟩
  · exact .inl ⟨congrArg Prod.snd hkept, fun x hx => hall x hx trivial⟩
  · exact .inr ⟨pre, e, post, hm, congrArg Prod.snd hfound, hlt, fun x hx => hpre x hx trivial,
      fun x hx => hpost x hx trivial⟩

theorem bestRight_iff (hm : m.Nodup) :
    BestRight s m (m.foldl s.better (rtmetricMax, none)).2 ↔ MeetsBest s m := by
  have hmax : rtmetricMax.toNat = 511 := rfl
  rcases foldl_better s m with ⟨hnone, hall⟩ | ⟨pre, e, post, rfl, hsome, hlt, hpre, hpost⟩
  · rw [hnone]
    refine iff_of_true ⟨iff_of_true rfl fun x hx => (hall x hx).trans (s.neighbor x).sum_le,
      fun e he => by cases he⟩ fun x hx _ hwraps => ?_
    exact absurd (UInt16.lt_iff_toNat_lt.mp hwraps) (Nat.not_lt.mpr (hall x hx))
  · rw [hsome]
    have hmem : e ∈ pre ++ e :: post := List.mem_append_right pre List.mem_cons_self
    have hle : ∀ x ∈ pre ++ e :: post, (s.neighbor e).rtmetricLinkEstimate.toNat ≤
        (s.neighbor x).rtmetricLinkEstimate.toNat := by
      intro x hx
      rcases List.mem_append.mp hx with hx | hx
      · exact Nat.le_of_lt (hpre x hx)
      · rcases List.mem_cons.mp hx with rfl | hx
        · exact Nat.le_refl _
        · exact hpost x hx
    constructor
    · intro hright x hx hwraps hbelow
      obtain ⟨-, hexact, -⟩ := hright.2 e rfl
      have hsum : (s.neighbor e).rtmetricLinkEstimate.toNat = (s.neighbor e).exact :=
        Neighbor.sum_eq (by omega)
      have hne : x ≠ e := by
        rintro rfl
        omega
      refine ⟨e, hmem, by omega, ?_⟩
      rcases List.mem_append.mp hx with hx | hx
      · exact .inl (hsum ▸ hpre x hx)
      · have hpostmem := (List.mem_cons.mp hx).resolve_left hne
        rcases Nat.lt_or_eq_of_le (hsum ▸ hpost x hpostmem) with hless | heq
        · exact .inl hless
        · exact .inr ⟨heq, ((List.singleton_sublist.mpr hpostmem).cons_cons e).trans
            (List.sublist_append_right _ _)⟩
    · intro hmeets
      have hexact : (s.neighbor e).exact < 65536 := by
        by_contra hwraps
        obtain ⟨y, hy, hyexact, hyless | ⟨hyeq, hysub⟩⟩ :=
          hmeets e hmem (Nat.not_lt.mp hwraps) (UInt16.lt_iff_toNat_lt.mpr hlt)
        · have hley := hle y hy
          rw [Neighbor.sum_eq hyexact] at hley
          omega
        · have hne : y ≠ e := by
            rintro rfl
            exact hwraps hyexact
          rcases List.mem_append.mp hy with hypre | hypost
          · have hlty := hpre y hypre
            rw [Neighbor.sum_eq hyexact] at hlty
            omega
          · have hyp := (List.mem_cons.mp hypost).resolve_left hne
            exact not_sublist_of_sublist hm hysub
              (((List.singleton_sublist.mpr hyp).cons_cons e).trans (List.sublist_append_right _ _))
      have hsum := Neighbor.sum_eq hexact
      refine ⟨iff_of_false (Option.some_ne_none e) fun hall => ?_, ?_⟩
      · have hge := hall e hmem
        omega
      · rintro e' he'
        obtain rfl := Option.some_inj.mp he'
        exact ⟨hmem, by omega, fun x hx => (hsum ▸ hle x hx).trans (s.neighbor x).sum_le⟩

/-! ### What holds all the time -/

/-- The lists are as they should be: neighbors have distinct addresses, have not reached the
greatest age, and their link estimates are fair. -/
structure Kept (s : Node κ) (l : κ → List Nat) : Prop where
  listed : Listed s l
  young : ∀ k, ∀ e ∈ l k, (s.neighbor e).age.toNat < maxAge.toNat
  addrs : ∀ k, ∀ x ∈ l k, ∀ y ∈ l k, (s.neighbor x).addr = (s.neighbor y).addr → x = y
  fair : ∀ k, ∀ e ∈ l k, (s.neighbor e).le.Fair

theorem kept_init (neighbor : Nat → Neighbor) (parent : κ → RimeAddr) (isRouter : κ → Bool) :
    Kept (init neighbor parent isRouter) fun _ => [] where
  listed := listed_init neighbor parent isRouter
  young _ := List.forall_mem_nil _
  addrs _ := List.forall_mem_nil _
  fair _ := List.forall_mem_nil _

/-- Neighbors may go, and those that stay keep their addresses. -/
theorem Kept.subset {l' : κ → List Nat} (h : Kept s l) (hlisted : Listed s' l')
    (hsub : ∀ k, l' k ⊆ l k) (hsame : ∀ k, ∀ e ∈ l' k, (s'.neighbor e).addr = (s.neighbor e).addr ∧
      (s'.neighbor e).age.toNat < maxAge.toNat ∧ (s'.neighbor e).le.Fair) : Kept s' l' where
  listed := hlisted
  young k e he := (hsame k e he).2.1
  addrs k x hx y hy hxy := by
    rw [(hsame k x hx).1, (hsame k y hy).1] at hxy
    exact h.addrs k x (hsub k hx) y (hsub k hy) hxy
  fair k e he := (hsame k e he).2.2

/-- A change of a neighbor that leaves its address. -/
theorem Kept.modify (h : Kept s l) (e : Nat) {f : Neighbor → Neighbor}
    (hf : ∀ n, (f n).addr = n.addr ∧ ((f n).age = n.age ∨ (f n).age = 0) ∧
      (n.le.Fair → (f n).le.Fair)) : Kept (s.modify e f) l := by
  refine h.subset (h.listed.congr rfl rfl) (fun k => List.Subset.refl _) fun k x hx => ?_
  by_cases hxe : x = e
  · subst hxe
    rw [modify_neighbor_self]
    obtain ⟨haddr, hage, hfair⟩ := hf (s.neighbor x)
    refine ⟨haddr, ?_, hfair (h.fair k x hx)⟩
    rcases hage with hage | hage
    · rw [hage]
      exact h.young k x hx
    · rw [hage]
      decide
  · rw [modify_neighbor_of_ne s hxe]
    exact ⟨rfl, h.young k x hx, h.fair k x hx⟩

theorem Kept.find (h : Kept s l) (k : κ) (addr : RimeAddr) : ∃ r, s.find k addr = some r ∧
    (r = none ∧ (∀ x ∈ l k, (s.neighbor x).addr ≠ addr) ∨
      ∃ e ∈ l k, r = some e ∧ (s.neighbor e).addr = addr) := by
  refine ⟨_, by rw [Node.find, h.listed.neighbors k, Option.map_some], ?_⟩
  cases hfind : (l k).find? fun e => (s.neighbor e).addr = addr with
  | none => exact .inl ⟨rfl, fun x hx => by simpa using List.find?_eq_none.mp hfind x hx⟩
  | some e =>
      exact .inr ⟨e, List.mem_of_find?_eq_some hfind, rfl, by simpa using List.find?_some hfind⟩

/-! ### The metric -/

/-- The metric is the greatest one, or the exact sum for the parent, which is greater than the
metric of the parent and below the greatest one. -/
def UpdateRight (s : Node κ) (l : κ → List Nat) (k : κ) : Prop :=
  (s.conn k).rtmetric = rtmetricMax ∨ ∃ p ∈ l k, (s.neighbor p).addr = (s.conn k).parent ∧
    (s.conn k).rtmetric.toNat = (s.neighbor p).exact ∧
    (s.neighbor p).rtmetric < (s.conn k).rtmetric ∧ (s.conn k).rtmetric < rtmetricMax

/-- The condition of `update_rtmetric`: the best neighbor is right; if the parent is listed, then its
sum is sound, or another neighbor is significantly better, or there is no neighbor below the
greatest metric; and if there is none, then a neighbor with the null address is sound. -/
def MeetsUpdate (s : Node κ) (l : κ → List Nat) (k : κ) : Prop :=
  MeetsBest s (l k) ∧
    (∀ c ∈ l k, (s.neighbor c).addr = (s.conn k).parent → (s.neighbor c).Sound ∨
      (∃ b ∈ l k, (s.neighbor b).exact < rtmetricMax.toNat ∧ (s.neighbor b).exact +
        significantRtmetricParentChange < (s.neighbor c).rtmetricLinkEstimate.toNat) ∨
      ∀ b ∈ l k, rtmetricMax.toNat ≤ (s.neighbor b).exact) ∧
    ((∀ b ∈ l k, rtmetricMax.toNat ≤ (s.neighbor b).exact) →
      ∀ c ∈ l k, (s.neighbor c).addr = rimeaddrNull → (s.neighbor c).Sound)

theorem setConn_conn_self [DecidableEq κ] (s : Node κ) (k : κ) (f : Conn → Conn) :
    (s.setConn k f).conn k = f (s.conn k) :=
  Function.update_self ..

variable [DecidableEq κ]

theorem Kept.setConn (h : Kept s l) (k : κ) (f : Conn → Conn) : Kept (s.setConn k f) l where
  listed := h.listed.congr rfl rfl
  young := h.young
  addrs := h.addrs
  fair := h.fair

/-- The metric that is taken over for a sound neighbor. -/
theorem Kept.right_of_sound (h : Kept s l) {p : Nat} (hp : p ∈ l k)
    (hparent : (s.neighbor p).addr = (s.conn k).parent) (hsound : (s.neighbor p).Sound) :
    UpdateRight (s.setConn k fun c =>
      { c with rtmetric := sane (s.neighbor p).rtmetricLinkEstimate }) l k := by
  unfold UpdateRight
  rw [setConn_conn_self]
  dsimp only
  have hmax : rtmetricMax.toNat = 511 := rfl
  obtain hzero | heq | hlt := hsound
  · left
    exact if_pos hzero
  · left
    rw [sane, heq]
    rfl
  · right
    obtain ⟨hge, -⟩ := (h.fair k p hp).estimate
    have hsum : (s.neighbor p).rtmetricLinkEstimate.toNat = (s.neighbor p).exact :=
      Neighbor.sum_eq (by omega)
    have hexact : (s.neighbor p).exact =
        (s.neighbor p).rtmetric.toNat + (s.neighbor p).le.estimate.toNat := rfl
    have hne : ¬ (s.neighbor p).rtmetricLinkEstimate = rtmetricSink := fun hzero => by
      rw [hzero, show rtmetricSink.toNat = 0 from rfl] at hsum
      omega
    rw [sane, if_neg hne]
    have hgreater : (s.neighbor p).rtmetric < (s.neighbor p).rtmetricLinkEstimate :=
      UInt16.lt_iff_toNat_lt.mpr (by omega)
    exact ⟨p, hp, hparent, hsum, hgreater, UInt16.lt_iff_toNat_lt.mpr (by omega)⟩

/-- With no parent in the list the metric is the greatest one. -/
theorem right_of_none (s : Node κ) (l : κ → List Nat) (k : κ) :
    UpdateRight (s.setConn k fun c => { c with rtmetric := sane rtmetricMax }) l k := by
  left
  rw [setConn_conn_self]
  rfl

/-- `rtmetric_compute` after a parent has been found, with what is taken over. -/
theorem Kept.compute (h : Kept s l) (k : κ)
    (hsound : ∀ p ∈ l k, (s.neighbor p).addr = (s.conn k).parent → (s.neighbor p).Sound) :
    ∃ metric, s.rtmetricCompute k = some metric ∧
      UpdateRight (s.setConn k fun c => { c with rtmetric := sane metric }) l k := by
  obtain ⟨r, hfind, ⟨rfl, -⟩ | ⟨p, hp, rfl, haddr⟩⟩ := h.find k (s.conn k).parent
  · exact ⟨rtmetricMax, by rw [rtmetricCompute, hfind]; rfl, right_of_none s l k⟩
  · exact ⟨_, by rw [rtmetricCompute, hfind]; rfl, h.right_of_sound hp haddr (hsound p hp haddr)⟩

/-- The parent after `update_parent` is sound. -/
theorem Kept.updateParent (h : Kept s l) (hmeets : MeetsUpdate s l k) : ∃ s' acts,
    s.updateParent k = some (s', acts) ∧ s'.neighbor = s.neighbor ∧ Kept s' l ∧
      ∀ p ∈ l k, (s'.neighbor p).addr = (s'.conn k).parent → (s'.neighbor p).Sound := by
  obtain ⟨hbest, hstays, hnull⟩ := hmeets
  obtain ⟨current, hfind, hcurrent⟩ := h.find k (s.conn k).parent
  have hb := (bestRight_iff (h.listed.table k).nodup).mpr hbest
  have hbestEq : s.best k = some ((l k).foldl s.better (rtmetricMax, none)).2 := by
    rw [Node.best, h.listed.neighbors k, Option.map_some]
  cases hfound : ((l k).foldl s.better (rtmetricMax, none)).2 with
  | none =>
      rw [hfound] at hb hbestEq
      have hall := hb.1.mp rfl
      refine ⟨s.setConn k fun c => { c with parent := rimeaddrNull }, [], ?_, rfl, h.setConn k _,
        fun p hp haddr => ?_⟩
      · simp only [Node.updateParent, hfind, hbestEq, Option.bind_eq_bind, Option.bind_some]
        rfl
      · rw [setConn_conn_self] at haddr
        exact hnull hall p hp haddr
  | some b =>
      rw [hfound] at hb hbestEq
      obtain ⟨hbmem, hblt, hbmin⟩ := hb.2 b rfl
      have hbsum : (s.neighbor b).rtmetricLinkEstimate.toNat = (s.neighbor b).exact :=
        Neighbor.sum_eq (hblt.trans (by decide))
      -- the best neighbor as the parent
      have hkept : Kept (s.adopt k b).1 l := h.setConn k fun c =>
        { c with parent := (s.neighbor b).addr }
      have hadopt : ∀ p ∈ l k, ((s.adopt k b).1.neighbor p).addr = ((s.adopt k b).1.conn k).parent →
          ((s.adopt k b).1.neighbor p).Sound := by
        intro p hp haddr
        rw [adopt, setConn_conn_self] at haddr
        obtain rfl := h.addrs k p hp b hbmem haddr
        exact .inr (.inr hblt)
      obtain ⟨rfl, -⟩ | ⟨c, hc, rfl, hcaddr⟩ := hcurrent
      · refine ⟨(s.adopt k b).1, (s.adopt k b).2, ?_, rfl, hkept, hadopt⟩
        simp only [Node.updateParent, hfind, hbestEq, Option.bind_eq_bind, Option.bind_some]
        rfl
      · by_cases hswitch : (s.neighbor b).rtmetricLinkEstimate.toNat +
            significantRtmetricParentChange < (s.neighbor c).rtmetricLinkEstimate.toNat
        · refine ⟨(s.adopt k b).1, (s.adopt k b).2, ?_, rfl, hkept, hadopt⟩
          simp only [Node.updateParent, hfind, hbestEq, Option.bind_eq_bind, Option.bind_some,
            if_pos hswitch]
          rfl
        · refine ⟨s, [], ?_, rfl, h, fun p hp haddr => ?_⟩
          · simp only [Node.updateParent, hfind, hbestEq, Option.bind_eq_bind, Option.bind_some,
              if_neg hswitch]
            rfl
          · obtain hsound | ⟨b', hb', hblt', hless⟩ | hall := hstays p hp haddr
            · exact hsound
            · obtain rfl := h.addrs k p hp c hc (haddr.trans hcaddr.symm)
              have hle := hbmin b' hb'
              exact absurd (Nat.lt_of_le_of_lt (Nat.add_le_add_right (hbsum ▸ hle) _) hless) hswitch
            · exact absurd hblt (Nat.not_lt.mpr (hall b hbmem))

theorem Kept.updateRtmetric (h : Kept s l) (k : κ)
    (hmeets : (s.conn k).rtmetric ≠ rtmetricSink → MeetsUpdate s l k) : ∃ s',
    (s.updateRtmetric k).map Prod.fst = some s' ∧ Kept s' l ∧
      ((s.conn k).rtmetric ≠ rtmetricSink → UpdateRight s' l k) := by
  by_cases hsink : (s.conn k).rtmetric ≠ rtmetricSink
  · obtain ⟨s₁, acts, hparent, -, hkept, hsound⟩ := h.updateParent (hmeets hsink)
    obtain ⟨metric, hcompute, hright⟩ := hkept.compute k hsound
    refine ⟨s₁.setConn k fun c => { c with rtmetric := sane metric }, ?_, hkept.setConn k _,
      fun _ => hright⟩
    simp only [Node.updateRtmetric, if_pos hsink, hparent, hcompute, Option.bind_eq_bind,
      Option.bind_some]
    rfl
  · exact ⟨s, by rw [Node.updateRtmetric, if_neg hsink]; rfl, h, fun hne => absurd hne hsink⟩

/-! ### Ticks -/

/-- The neighbors left are those whose age does not reach the greatest one, and all have grown older
by one. -/
def TickRight (s : Node κ) (l : κ → List Nat) (k : κ) : Prop :=
  ∃ s', s.periodic k = some s' ∧
    s'.neighbors k = some ((l k).filter fun e => Stays (s.neighbor e)) ∧
    ∀ e ∈ l k, (s'.neighbor e).age = (s.neighbor e).age + 1

/-- The condition of a tick: the first two neighbors do not both reach the greatest age. -/
def MeetsTick (s : Node κ) (m : List Nat) : Prop :=
  ¬∃ a b rest, m = a :: b :: rest ∧ ¬ Stays (s.neighbor a) ∧ ¬ Stays (s.neighbor b)

omit [DecidableEq κ] in
theorem survivors_stays (s : Node κ) (m : List Nat) :
    survivors (fun e => decide (Stays (s.neighbor e))) m =
      m.filter (fun e => decide (Stays (s.neighbor e))) ↔ MeetsTick s m := by
  rw [survivors_eq_iff, MeetsTick]
  simp only [decide_eq_false_iff_not]

theorem Listed.tickRight_iff (h : Listed s l) (k : κ) : TickRight s l k ↔ MeetsTick s (l k) := by
  obtain ⟨s', hrun, hlisted, hin, -, -⟩ := h.periodic k
  have hneighbors := hlisted.neighbors k
  rw [Function.update_self] at hneighbors
  rw [← survivors_stays]
  constructor
  · rintro ⟨s'', hrun', hneighbors', -⟩
    obtain rfl : s' = s'' := Option.some_inj.mp (hrun.symm.trans hrun')
    exact Option.some_inj.mp (hneighbors.symm.trans hneighbors')
  · intro heq
    exact ⟨s', hrun, heq ▸ hneighbors, fun e he => (hin e he).age⟩

theorem Kept.tick (h : Kept s l) (k : κ) (hmeets : MeetsTick s (l k)) :
    ∃ s' l', s.periodic k = some s' ∧ Kept s' l' := by
  obtain ⟨s', hrun, hlisted, hin, hout, -⟩ := h.listed.periodic k
  rw [(survivors_stays s (l k)).mpr hmeets] at hlisted
  have hsub : ∀ k', Function.update l k ((l k).filter fun e => Stays (s.neighbor e)) k' ⊆ l k' := by
    intro k'
    by_cases hkk : k' = k
    · subst hkk
      rw [Function.update_self]
      exact List.filter_subset_self _
    · rw [Function.update_of_ne hkk]
      exact List.Subset.refl _
  refine ⟨s', _, hrun, h.subset hlisted hsub fun k' e he => ?_⟩
  have hmem := hsub k' he
  by_cases hkk : k' = k
  · subst hkk
    rw [Function.update_self] at he
    have hstays : Stays (s.neighbor e) := of_decide_eq_true (List.mem_filter.mp he).2
    have hrenewed := hin e hmem
    refine ⟨hrenewed.addr, ?_, hrenewed.fair (h.fair k' e hmem)⟩
    have hyoung := h.young k' e hmem
    have hage : ((s.neighbor e).age + 1).toNat = (s.neighbor e).age.toNat + 1 := by
      rw [UInt16.toNat_add]
      exact Nat.mod_eq_of_lt (by
        rw [show maxAge.toNat = 180 from rfl] at hyoung
        rw [show (1 : UInt16).toNat = 1 from rfl]
        omega)
    have hne : (s.neighbor e).age.toNat + 1 ≠ maxAge.toNat := fun heq =>
      hstays (UInt16.toNat_inj.mp (hage.trans heq))
    rw [hrenewed.age]
    show ((s.neighbor e).age + 1).toNat < maxAge.toNat
    omega
  · have hnotMem : e ∉ l k := fun hek => hkk (h.listed.disjoint k' k e hmem hek)
    have hrenewed := hout e hnotMem
    exact ⟨hrenewed.addr, by rw [hrenewed.age]; exact h.young k' e hmem,
      hrenewed.fair (h.fair k' e hmem)⟩

/-! ### Neighbors that come and go -/

omit [DecidableEq κ] in
/-- A neighbor that is new on the list, or is written anew, has an address that no other one has. -/
theorem Kept.write {l' : κ → List Nat} (h : Kept s l) (hlisted : Listed s' l')
    (hold : ∀ k', ∀ x ∈ l' k', x ≠ e → x ∈ l k') (hsame : s'.neighbor = s.neighbor)
    (hek : e ∈ l' k) {addr : RimeAddr} (hnew : ∀ x ∈ l' k, x ≠ e → (s.neighbor x).addr ≠ addr)
    (rtmetric : UInt16) :
    Kept (s'.modify e fun _ => ⟨addr, rtmetric, 0, 0, LinkEstimate.new⟩) l' := by
  have hother : ∀ x, x ≠ e → (s'.modify e fun _ =>
      ⟨addr, rtmetric, 0, 0, LinkEstimate.new⟩).neighbor x = s.neighbor x := fun x hx => by
    rw [modify_neighbor_of_ne s' hx, hsame]
  refine ⟨hlisted.congr rfl rfl, fun k' x hx => ?_, fun k' x hx y hy hxy => ?_, fun k' x hx => ?_⟩
  · by_cases hxe : x = e
    · rw [hxe, modify_neighbor_self]
      exact show (0 : UInt16).toNat < maxAge.toNat by decide
    · rw [hother x hxe]
      exact h.young k' x (hold k' x hx hxe)
  · by_cases hxe : x = e <;> by_cases hye : y = e
    · rw [hxe, hye]
    · rw [hxe, modify_neighbor_self, hother y hye] at hxy
      obtain rfl := hlisted.disjoint k k' e hek (hxe ▸ hx)
      exact absurd hxy.symm (hnew y hy hye)
    · rw [hye, modify_neighbor_self, hother x hxe] at hxy
      obtain rfl := hlisted.disjoint k k' e hek (hye ▸ hy)
      exact absurd hxy (hnew x hx hxe)
    · rw [hother x hxe, hother y hye] at hxy
      exact h.addrs k' x (hold k' x hx hxe) y (hold k' y hy hye) hxy
  · by_cases hxe : x = e
    · rw [hxe, modify_neighbor_self]
      exact LinkEstimate.fair_new
    · rw [hother x hxe]
      exact h.fair k' x (hold k' x hx hxe)

omit [DecidableEq κ] in
/-- The neighbor with the highest metric is one of the list. -/
theorem foldl_worse (s : Node κ) (m : List Nat) (worst : UInt16 × Option Nat) :
    (m.foldl s.worse worst).2 = worst.2 ∨ ∃ e ∈ m, (m.foldl s.worse worst).2 = some e := by
  induction m generalizing worst with
  | nil => exact .inl rfl
  | cons a m ih =>
      rw [List.foldl_cons]
      rcases ih (s.worse worst a) with hsame | ⟨e, he, hfound⟩
      · rw [hsame, worse]
        split_ifs
        · exact .inr ⟨a, List.mem_cons_self, rfl⟩
        · exact .inl rfl
      · exact .inr ⟨e, List.mem_cons_of_mem a he, hfound⟩

/-- A new block at the end of a list. -/
theorem Listed.append (h : Listed s l) {mem : Memb} (halloc : s.mem.alloc = some (e, mem)) (k : κ) :
    ∃ list, (s.list k).add maxCollectNeighbors e = some list ∧ (∀ k', e ∉ l k') ∧
      Listed { s.setList k list with mem := mem } (Function.update l k (l k ++ [e])) := by
  have hnew : ∀ k', e ∉ l k' := fun k' he =>
    Memb.not_mem_of_alloc halloc ((h.used e).mpr ⟨k', he⟩)
  obtain ⟨hlt, hsize⟩ := Memb.lt_of_alloc halloc
  obtain ⟨list, hadd, hlist⟩ := (h.table k).add (hnew k) (h.length_le k)
  have hcases : ∀ k' x, x ∈ Function.update l k (l k ++ [e]) k' ↔ x ∈ l k' ∨ x = e ∧ k' = k := by
    intro k' x
    by_cases hkk : k' = k
    · subst hkk
      rw [Function.update_self, List.mem_append, List.mem_singleton, and_iff_left rfl]
    · rw [Function.update_of_ne hkk, or_iff_left fun hx => hkk hx.2]
  refine ⟨list, hadd, hnew, fun k' => ?_, fun x => ?_, fun k₁ k₂ x h₁ h₂ => ?_, hsize.trans h.size,
    fun k' x hx => ?_⟩
  · by_cases hkk : k' = k
    · subst hkk
      show (Function.update s.list k' list k').Holds _
      rw [Function.update_self, Function.update_self]
      exact hlist
    · show (Function.update s.list k list k').Holds _
      rw [Function.update_of_ne hkk, Function.update_of_ne hkk]
      exact h.table k'
  · show x ∈ mem.used ↔ _
    rw [Memb.used_of_alloc halloc, Finset.mem_insert, h.used]
    constructor
    · rintro (rfl | ⟨k', hx⟩)
      · exact ⟨k, (hcases k x).mpr (.inr ⟨rfl, rfl⟩)⟩
      · exact ⟨k', (hcases k' x).mpr (.inl hx)⟩
    · rintro ⟨k', hx⟩
      rcases (hcases k' x).mp hx with hx | ⟨rfl, -⟩
      · exact .inr ⟨k', hx⟩
      · exact .inl rfl
  · rcases (hcases k₁ x).mp h₁ with h₁ | ⟨hxe, hk₁⟩ <;>
      rcases (hcases k₂ x).mp h₂ with h₂ | ⟨hxe', hk₂⟩
    · exact h.disjoint k₁ k₂ x h₁ h₂
    · exact absurd (hxe' ▸ h₁) (hnew k₁)
    · exact absurd (hxe ▸ h₂) (hnew k₂)
    · rw [hk₁, hk₂]
  · rcases (hcases k' x).mp hx with hx | ⟨rfl, -⟩
    · exact h.lt k' x hx
    · exact h.size ▸ hlt

theorem Kept.add (h : Kept s l) (k : κ) (addr : RimeAddr) (nrtmetric : UInt16) :
    ∃ s' l', s.add k addr nrtmetric = some s' ∧ Kept s' l' := by
  simp only [Node.add, h.listed.neighbors k, Option.bind_eq_bind, Option.bind_some, blockFor]
  cases hfind : (l k).find? fun e => (s.neighbor e).addr = addr with
  | some e =>
      have he := List.mem_of_find?_eq_some hfind
      have haddr : (s.neighbor e).addr = addr := by simpa using List.find?_some hfind
      exact ⟨_, l, rfl, h.write h.listed (fun _ _ hx _ => hx) rfl he
        (fun x hx hne heq => hne (h.addrs k x hx e he (heq.trans haddr.symm))) nrtmetric⟩
  | none =>
      have hnone : ∀ x ∈ l k, (s.neighbor x).addr ≠ addr := fun x hx => by
        simpa using List.find?_eq_none.mp hfind x hx
      cases halloc : s.mem.alloc with
      | some b =>
          obtain ⟨e, mem⟩ := b
          obtain ⟨list, hadd, hnew, hlisted⟩ := h.listed.append halloc k
          simp only [hadd, Option.map_some, Option.bind_some]
          have hself : Function.update l k (l k ++ [e]) k = l k ++ [e] := Function.update_self ..
          have hold : ∀ k', ∀ x ∈ Function.update l k (l k ++ [e]) k', x ≠ e → x ∈ l k' := by
            intro k' x hx hne
            by_cases hkk : k' = k
            · subst hkk
              rw [Function.update_self] at hx
              exact (List.mem_append.mp hx).resolve_right fun hxe =>
                hne (List.mem_singleton.mp hxe)
            · rwa [Function.update_of_ne hkk] at hx
          refine ⟨_, _, rfl, h.write (k := k) hlisted hold rfl ?_
            (fun x hx hne => hnone x (hold k x hx hne)) nrtmetric⟩
          rw [hself]
          exact List.mem_append_right _ List.mem_cons_self
      | none =>
          simp only [Option.bind_some]
          split_ifs
          · rcases foldl_worse s (l k) (0, none) with hworst | ⟨e, he, hworst⟩
            · rw [hworst]
              exact ⟨s, l, rfl, h⟩
            · rw [hworst]
              exact ⟨_, l, rfl, h.write h.listed (fun _ _ hx _ => hx) rfl he
                (fun x hx _ => hnone x hx) nrtmetric⟩
          · exact ⟨s, l, rfl, h⟩

/-- A neighbor that is taken from the list leaves the others as they are. -/
theorem Kept.release (h : Kept s l) (hk : l k = pre ++ e :: post) {list : Lib.Lists Nat}
    (hlist : list.Holds (pre ++ post)) :
    Kept { s.setList k list with mem := s.mem.free e } (Function.update l k (pre ++ post)) := by
  have hsub : ∀ k', Function.update l k (pre ++ post) k' ⊆ l k' := by
    intro k'
    by_cases hkk : k' = k
    · subst hkk
      rw [Function.update_self, hk]
      exact (List.Sublist.append (List.Sublist.refl pre) (List.sublist_cons_self e post)).subset
    · rw [Function.update_of_ne hkk]
      exact List.Subset.refl _
  exact h.subset (h.listed.release hk hlist) hsub fun k' x hx =>
    ⟨rfl, h.young k' x (hsub k' hx), h.fair k' x (hsub k' hx)⟩

theorem Kept.remove (h : Kept s l) (k : κ) (addr : RimeAddr) :
    ∃ s' l', s.remove k addr = some s' ∧ Kept s' l' := by
  obtain ⟨r, hfind, ⟨rfl, -⟩ | ⟨e, he, rfl, -⟩⟩ := h.find k addr
  · exact ⟨s, l, by simp only [Node.remove, hfind, Option.bind_eq_bind, Option.bind_some]; rfl, h⟩
  · obtain ⟨pre, post, hk⟩ := List.append_of_mem he
    obtain ⟨list, hremove, hlist, -⟩ := h.listed.unlink hk
    refine ⟨_, _, ?_, h.release hk hlist⟩
    simp only [Node.remove, hfind, hremove, Option.bind_eq_bind, Option.bind_some]
    rfl

theorem Kept.purge {r : Nat} (h : Kept s l) (hr : (l k).length < r) :
    ∃ s' l', purgeFrom k r s = some s' ∧ Kept s' l' := by
  induction r generalizing s l with
  | zero => omega
  | succ r ih =>
      have htable := h.listed.table k
      cases hk : l k with
      | nil =>
          rw [hk] at htable
          exact ⟨s, l, by rw [purgeFrom, htable.pop_nil], h⟩
      | cons e m =>
          rw [hk] at htable hr
          obtain ⟨hpop, hlist⟩ := htable.pop
          have hfirst : l k = [] ++ e :: m := hk
          have hkept := h.release hfirst hlist
          obtain ⟨s', l', hpurge, hkept'⟩ := ih hkept (by
            rw [Function.update_self]
            exact Nat.lt_of_succ_lt_succ hr)
          refine ⟨s', l', ?_, hkept'⟩
          have hpair : (s.list k).pop = (some e, (s.list k).pop.2) := Prod.ext hpop rfl
          rw [purgeFrom, hpair]
          exact hpurge

/-! ### Runs -/

/-- The condition of a step, for the neighbors that are listed. -/
def Meets (s : Node κ) (l : κ → List Nat) : Event κ → Prop
  | .periodic k => MeetsTick s (l k)
  | .updateRtmetric k => (s.conn k).rtmetric ≠ rtmetricSink → MeetsUpdate s l k
  | _ => True

/-- All the steps of a run meet their conditions. -/
def MeetsAll : Node κ → List (Event κ) → Prop
  | _, [] => True
  | s, ev :: evs => (∀ l, (∀ k, s.neighbors k = some (l k)) → Meets s l ev) ∧
    ∀ s', s.step ev = some s' → MeetsAll s' evs

/-- One step. -/
theorem Kept.step (h : Kept s l) {ev : Event κ} (hmeets : Meets s l ev) :
    ∃ s' l', s.step ev = some s' ∧ Kept s' l' := by
  cases ev with
  | periodic k => exact h.tick k hmeets
  | add k addr nrtmetric => exact h.add k addr nrtmetric
  | remove k addr => exact h.remove k addr
  | purge k => exact h.purge (Nat.lt_succ_of_le (h.listed.length_le k))
  | neighborRtmetric e rtmetric =>
      exact ⟨_, l, rfl, h.modify e fun n => ⟨rfl, .inr rfl, fun hfair => hfair⟩⟩
  | tx e numTx =>
      exact ⟨_, l, rfl, h.modify e fun n => ⟨rfl, .inr rfl, fun hfair => hfair.updateTx _⟩⟩
  | txFail e numTx =>
      exact ⟨_, l, rfl, h.modify e fun n => ⟨rfl, .inr rfl, fun hfair => hfair.updateTx _⟩⟩
  | rx e => exact ⟨_, l, rfl, h.modify e fun n => ⟨rfl, .inr rfl, fun hfair => hfair⟩⟩
  | setParent k addr => exact ⟨_, l, rfl, h.setConn k _⟩
  | setSink k shouldBeSink => exact ⟨_, l, rfl, h.setConn k _⟩
  | updateRtmetric k =>
      obtain ⟨s', hupdate, hkept, -⟩ := h.updateRtmetric k hmeets
      exact ⟨s', l, hupdate, hkept⟩

theorem Kept.run (h : Kept s l) {evs : List (Event κ)} (hmeets : MeetsAll s evs) :
    ∃ s' l', s.run evs = some s' ∧ Kept s' l' := by
  induction evs generalizing s l with
  | nil => exact ⟨s, l, rfl, h⟩
  | cons ev evs ih =>
      obtain ⟨s₁, l₁, hstep, hkept⟩ := h.step (hmeets.1 l h.listed.neighbors)
      obtain ⟨s', l', hrun, hkept'⟩ := ih hkept (hmeets.2 s₁ hstep)
      exact ⟨s', l', by rw [Node.run, hstep, Option.bind_some, hrun], hkept'⟩

/-- After a run whose steps all meet their conditions the blocks in use are those of the neighbors
listed, each on one list, and all are younger than the greatest age; the best neighbor of a list and
a tick are right if and only if they meet their conditions, and an update of the metric is right if
it meets its own. -/
theorem metric_of_run (neighbor : Nat → Neighbor) (parent : κ → RimeAddr) (isRouter : κ → Bool)
    (evs : List (Event κ)) (h : MeetsAll (init neighbor parent isRouter) evs) :
    ∃ s l, (init neighbor parent isRouter).run evs = some s ∧
      (∀ k, s.neighbors k = some (l k)) ∧ (∀ e, e ∈ s.mem.used ↔ ∃ k, e ∈ l k) ∧
      (∀ k k' e, e ∈ l k → e ∈ l k' → k = k') ∧
      (∀ k, ∀ e ∈ l k, (s.neighbor e).age < maxAge) ∧
      (∀ k, (∃ best, s.best k = some best ∧ BestRight s (l k) best) ↔ MeetsBest s (l k)) ∧
      (∀ k, (s.conn k).rtmetric ≠ rtmetricSink → MeetsUpdate s l k →
        ∃ s', (s.updateRtmetric k).map Prod.fst = some s' ∧ UpdateRight s' l k) ∧
      ∀ k, TickRight s l k ↔ MeetsTick s (l k) := by
  obtain ⟨s, l, hrun, hkept⟩ := (kept_init neighbor parent isRouter).run h
  refine ⟨s, l, hrun, hkept.listed.neighbors, hkept.listed.used, hkept.listed.disjoint,
    fun k e he => UInt16.lt_iff_toNat_lt.mpr (hkept.young k e he), fun k => ?_,
    fun k hsink hmeets => ?_, hkept.listed.tickRight_iff⟩
  · rw [← bestRight_iff (hkept.listed.table k).nodup, Node.best, hkept.listed.neighbors k,
      Option.map_some]
    constructor
    · rintro ⟨best, hbest, hright⟩
      rwa [Option.some_inj.mp hbest]
    · exact fun hright => ⟨_, rfl, hright⟩
  · obtain ⟨s', hupdate, -, hright⟩ := hkept.updateRtmetric k fun _ => hmeets
    exact ⟨s', hupdate, hright hsink⟩

/-- A neighbor of a pool that has not been used. -/
def unusedNeighbor : Neighbor := ⟨rimeaddrNull, 0, 0, 0, ⟨0, 0⟩⟩

/-- A neighbor is added, and is a minute older. -/
theorem metric_of_run_tick : ∃ (s : Node Unit) (l : Unit → List Nat),
    (init (fun _ => unusedNeighbor) (fun _ : Unit => rimeaddrNull) fun _ => true).run
      [.add () (Vector.replicate 8 1) 3, .periodic ()] = some s ∧
    (∀ k, s.neighbors k = some (l k)) ∧ ∀ k, ∀ e ∈ l k, (s.neighbor e).age < maxAge := by
  have hmeets : MeetsAll (init (fun _ => unusedNeighbor) (fun _ : Unit => rimeaddrNull)
      fun _ => true) [.add () (Vector.replicate 8 1) 3, .periodic ()] := by
    refine ⟨fun _ _ => trivial, fun s₁ h₁ => ⟨fun l hl => ?_, fun _ _ => trivial⟩⟩
    have hvalue : ((init (fun _ => unusedNeighbor) (fun _ : Unit => rimeaddrNull)
        fun _ => true).step (.add () (Vector.replicate 8 1) 3)).bind (fun s => s.neighbors ()) =
        some [0] := by
      decide
    rw [h₁, Option.bind_some, hl ()] at hvalue
    rintro ⟨a, b, rest, hm, -, -⟩
    rw [Option.some_inj.mp hvalue] at hm
    cases hm
  obtain ⟨s, l, hrun, hneighbors, -, -, hyoung, -⟩ := metric_of_run _ _ _ _ hmeets
  exact ⟨s, l, hrun, hneighbors, hyoung⟩

/-- A neighbor advertises the metric 65535. With its link estimate that is 127, and it is the best
neighbor. -/
theorem not_metric_of_any_run :
    ¬ ∀ (neighbor : Nat → Neighbor) (parent : Unit → RimeAddr) (isRouter : Unit → Bool)
      (evs : List (Event Unit)) (s : Node Unit) (l : Unit → List Nat),
      (init neighbor parent isRouter).run evs = some s → (∀ k, s.neighbors k = some (l k)) →
      (∀ k, ∃ best, s.best k = some best ∧ BestRight s (l k) best) ∧
      (∀ k, (s.conn k).rtmetric ≠ rtmetricSink →
        ∃ s', (s.updateRtmetric k).map Prod.fst = some s' ∧ UpdateRight s' l k) ∧
      ∀ k, TickRight s l k := by
  intro hall
  have hvalue : ((init (fun _ => unusedNeighbor) (fun _ : Unit => rimeaddrNull)
      fun _ => true).run [.add () (Vector.replicate 8 1) 65535]).map
        (fun s => (s.neighbors (), s.best (), (s.neighbor 0).exact)) =
      some (some [0], some (some 0), 65663) := by
    decide
  obtain ⟨s, hrun, hs⟩ := Option.map_eq_some_iff.mp hvalue
  rw [Prod.mk.injEq, Prod.mk.injEq] at hs
  obtain ⟨hneighbors, hbest, hexact⟩ := hs
  obtain ⟨best, hbest', -, hright⟩ :=
    (hall _ _ _ _ s (fun _ => [0]) hrun fun _ => hneighbors).1 ()
  obtain rfl : some 0 = best := Option.some_inj.mp (hbest.symm.trans hbest')
  obtain ⟨-, hlt, -⟩ := hright 0 rfl
  rw [hexact] at hlt
  exact absurd hlt (by decide)

end Node

end Calipso.Rime.CollectNeighbor
