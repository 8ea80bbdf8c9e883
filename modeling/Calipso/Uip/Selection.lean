import Calipso.Nbr.Eviction
import Calipso.Uip.Ds6
import Calipso.Wire.Best
import Calipso.Wire.CommonPrefix

/-!
# The neighbor and the source address that are chosen

`uip_ds6_get_least_lifetime_neighbor` of `uip-ds6-nbr.c` and `uip_ds6_select_src` of `uip-ds6.c`,
which both keep the best entry they have met so far. `selection_conforms_iff` says for which tables
it is the best one.
-/

namespace Calipso.Uip.Selection

open Memory Net Sicslowpan Wire

/-! ### Least lifetime -/

/-- `stimer_remaining` of `reachable` -/
def remaining (t : Neighbors) (now : UInt32) (k : Nat) : UInt32 :=
  (t.data k).reachable.remaining now

/-- The body of the loop of `uip_ds6_get_least_lifetime_neighbor`, with `nbr_expiring`. -/
def expiring (t : Neighbors) (now : UInt32) (best : Option Nat) (k : Nat) : Option Nat :=
  match best with
  | some b =>
    let curr := remaining t now k
    if curr < remaining t now k then some k else some b
  | none => some k

/-- `uip_ds6_get_least_lifetime_neighbor`; no second passes meanwhile. -/
def getLeastLifetimeNeighbor (t : Neighbors) (now : UInt32) : Option Nat :=
  (follow (t.next ds6Neighbors) t.keys.length (t.head ds6Neighbors)).foldl (expiring t now) none

/-! ### Source addresses -/

/-- The loop of `get_match_length` over the bits that are left of `x_or`. -/
def matchBits : Nat → UInt8 → UInt8 → UInt8
  | n + 1, xor, len => if xor &&& 0x80 = 0 then matchBits n (xor <<< 1) (len + 1) else len
  | 0, _, len => len

/-- The loop of `get_match_length` over the bytes. -/
def matchBytes : List UInt8 → List UInt8 → UInt8 → UInt8
  | s :: src, d :: dst, len =>
    if s = d then matchBytes src dst (len + 8) else matchBits 8 (s ^^^ d) len
  | _, _, len => len

/-- `get_match_length` -/
def getMatchLength (src dst : IpAddr) : UInt8 := matchBytes src.toList dst.toList 0

/-- The addresses that may be a source. -/
def Addr.candidate (a : Addr) : Bool :=
  a.isused && a.state = .preferred && !isAddrLinkLocal a.ipaddr

/-- The body of the loop of `uip_ds6_select_src`, with `matchaddr` and `best`. -/
def matching (dst : IpAddr) (found : Option Addr × UInt8) (a : Addr) : Option Addr × UInt8 :=
  if Addr.candidate a then
    let n := getMatchLength dst a.ipaddr
    if n ≥ found.2 then (some a, n) else found
  else found

/-- `uip_ds6_select_src` -/
def selectSrc (addrs : List Addr) (dst : IpAddr) : IpAddr :=
  if !isAddrLinkLocal dst && !isAddrMcast dst then
    match (addrs.foldl (matching dst) (none, 0)).1 with
    | none => Vector.replicate 16 0
    | some a => a.ipaddr
  else
    (getLinkLocal addrs).getD (Vector.replicate 16 0)

/-! ### What is asked -/

/-- The bits that two addresses have in common from the first one on. -/
def commonBits (a b : IpAddr) : Nat := commonLength (bits a.toList) (bits b.toList)

/-- The entries of the table. -/
def entries (t : Neighbors) : List Nat := t.keys.filter fun k => ds6Neighbors ∈ t.used k

/-- The neighbor is one that has the least time left, and there is none exactly for an empty
table. -/
structure Least (t : Neighbors) (now : UInt32) : Prop where
  some : ∀ k, getLeastLifetimeNeighbor t now = some k →
    k ∈ entries t ∧ ∀ j ∈ entries t, remaining t now k ≤ remaining t now j
  none : getLeastLifetimeNeighbor t now = none ↔ entries t = []

/-- The source is an address that has most bits in common with the destination, and the unspecified
one if there is no address. -/
structure Longest (addrs : List Addr) (dst : IpAddr) : Prop where
  length : ∀ a, (getMatchLength dst a).toNat = commonBits dst a
  some : (∃ a ∈ addrs, Addr.candidate a) → ∃ a ∈ addrs, Addr.candidate a ∧
    selectSrc addrs dst = a.ipaddr ∧
      ∀ b ∈ addrs, Addr.candidate b → commonBits dst b.ipaddr ≤ commonBits dst a.ipaddr
  none : (∀ a ∈ addrs, ¬Addr.candidate a) → selectSrc addrs dst = Vector.replicate 16 0

/-- No neighbor has less time left than the first one. -/
def FirstLeast (t : Neighbors) (now : UInt32) : Prop :=
  ∀ k, t.head ds6Neighbors = some k → ∀ j ∈ entries t, remaining t now k ≤ remaining t now j

/-! ### Neighbors -/

variable {t : Neighbors} {now : UInt32}

/-- A neighbor that was kept stays, since its time is compared with itself. -/
theorem foldl_expiring (b : Nat) (l : List Nat) :
    l.foldl (expiring t now) (some b) = some b := by
  induction l with
  | nil => rfl
  | cons k l ih =>
      have hstep : expiring t now (some b) k = some b := if_neg (UInt32.lt_irrefl _)
      rw [List.foldl_cons, hstep, ih]

theorem getLeastLifetimeNeighbor_eq (h : t.keys.Nodup) (now : UInt32) :
    getLeastLifetimeNeighbor t now = (entries t).head? := by
  unfold getLeastLifetimeNeighbor
  rw [Nbr.follow_head h (Nat.le_refl _)]
  change (entries t).foldl (expiring t now) none = _
  cases entries t with
  | nil => rfl
  | cons k l => exact foldl_expiring k l

theorem least_iff (h : t.keys.Nodup) : Least t now ↔ FirstLeast t now := by
  have hleast := getLeastLifetimeNeighbor_eq h now
  have hhead : t.head ds6Neighbors = (entries t).head? := by
    rw [Nbr.head_eq h, entries, List.head?_filter]
  constructor
  · intro hleast' k hk
    exact (hleast'.some k (hleast.trans (hhead.symm.trans hk))).2
  · intro hfirst
    refine ⟨fun k hk => ?_, ?_⟩
    · have hmem : (entries t).head? = some k := hleast.symm.trans hk
      exact ⟨List.mem_of_head? hmem, hfirst k (hhead.trans hmem)⟩
    · rw [hleast]
      exact List.head?_eq_none_iff

/-! ### Addresses -/

theorem matchBits_add (n : Nat) (xor len : UInt8) :
    matchBits n xor len = len + matchBits n xor 0 := by
  induction n generalizing xor len with
  | zero => exact (UInt8.add_zero len).symm
  | succ n ih =>
      unfold matchBits
      split
      · rw [ih _ (len + 1), ih _ (0 + 1), UInt8.zero_add, UInt8.add_assoc]
      · exact (UInt8.add_zero len).symm

theorem toNat_matchBits (xor : UInt8) :
    (matchBits 8 xor 0).toNat = commonLength (byteBits xor) (byteBits 0) := by
  revert xor
  apply forall_byte
  decide +kernel

/-- The bytes that agree count with all their bits, and the first ones that do not up to their
difference. -/
theorem toNat_matchBytes {src dst : List UInt8} (h : src.length = dst.length) {len : UInt8}
    (hlen : len.toNat + 8 * src.length < 256) :
    (matchBytes src dst len).toNat = len.toNat + commonLength (bits src) (bits dst) := by
  induction src generalizing dst len with
  | nil => rfl
  | cons s src ih =>
      cases dst with
      | nil => exact absurd h (Nat.succ_ne_zero _)
      | cons d dst =>
          rw [List.length_cons] at hlen
          unfold matchBytes
          rw [bits_cons, bits_cons]
          split
          · next heq =>
              subst heq
              have hadd : (len + 8).toNat = len.toNat + 8 := by
                rw [UInt8.toNat_add]
                exact Nat.mod_eq_of_lt (by simp; omega)
              rw [ih (Nat.succ.inj h) (by omega), hadd, commonLength_append_self, length_byteBits]
              omega
          · next hne =>
              have hbits : byteBits s ≠ byteBits d := fun heq => hne (byteBits_injective heq)
              have hle := commonLength_le (byteBits (s ^^^ d)) (byteBits 0)
              rw [length_byteBits, ← toNat_matchBits] at hle
              have hlen : (byteBits s).length = (byteBits d).length := rfl
              rw [commonLength_append_of_ne hlen hbits, commonLength_byteBits, ← toNat_matchBits,
                matchBits_add, UInt8.toNat_add]
              exact Nat.mod_eq_of_lt (by omega)

/-- The length is the exact number of common bits. -/
theorem toNat_getMatchLength (src dst : IpAddr) :
    (getMatchLength src dst).toNat = commonBits src dst := by
  have hlen : (0 : UInt8).toNat + 8 * src.toList.length < 256 := by simp
  unfold getMatchLength commonBits
  rw [toNat_matchBytes (by simp) hlen]
  exact Nat.zero_add _

variable {addrs : List Addr} {dst : IpAddr}

theorem matching_eq (dst : IpAddr) :
    matching dst = keepBest (fun a : Addr => Addr.candidate a)
      (fun a => getMatchLength dst a.ipaddr) := by
  funext found a
  unfold matching keepBest
  by_cases hle : found.2 ≤ getMatchLength dst a.ipaddr
  · simp [hle]
  · simp [hle]

theorem longest (hlocal : isAddrLinkLocal dst = false) (hmcast : isAddrMcast dst = false)
    (addrs : List Addr) : Longest addrs dst := by
  have hbot (a : Addr) : 0 ≤ getMatchLength dst a.ipaddr := UInt8.zero_le
  have hkept := kept_foldl (p := fun a : Addr => Addr.candidate a) hbot addrs
  have hnone := foldl_keepBest_eq_none (p := fun a : Addr => Addr.candidate a) (l := addrs) hbot
  rw [← matching_eq] at hkept hnone
  have hselect : selectSrc addrs dst =
      match (addrs.foldl (matching dst) (none, 0)).1 with
      | none => Vector.replicate 16 0
      | some a => a.ipaddr := by
    unfold selectSrc
    rw [hlocal, hmcast]
    rfl
  refine ⟨toNat_getMatchLength dst, fun hsome => ?_, fun h => ?_⟩
  · cases hfound : (addrs.foldl (matching dst) (none, 0)).1 with
    | none =>
        obtain ⟨a, ha, hcandidate⟩ := hsome
        exact absurd hcandidate (hnone.mp hfound a ha)
    | some a =>
        obtain ⟨-, ha, hcandidate, hmax⟩ := hkept.some a hfound
        rw [hfound] at hselect
        refine ⟨a, ha, hcandidate, hselect, fun b hb hb' => ?_⟩
        rw [← toNat_getMatchLength, ← toNat_getMatchLength]
        exact UInt8.le_iff_toNat_le.mp (hmax b hb hb')
  · rw [hnone.mpr h] at hselect
    exact hselect

/-! ### The main result -/

/-- The neighbor is the best one exactly if it is the first of the table; the source address always
is. -/
theorem selection_conforms_iff (t : Neighbors) (h : t.keys.Nodup) (now : UInt32)
    (addrs : List Addr) (dst : IpAddr) :
    (Least t now ∧ (isAddrLinkLocal dst = false → isAddrMcast dst = false → Longest addrs dst)) ↔
      FirstLeast t now := by
  rw [least_iff h]
  exact and_iff_left fun hlocal hmcast => longest hlocal hmcast addrs

/-- Two neighbors, of which the second has less time left. -/
def twoNeighbors : Neighbors where
  mem := .empty 2
  keys := [0, 1]
  lladdr _ := .null
  used _ := {ds6Neighbors}
  locked _ := ∅
  tables := [true]
  data k := ⟨Vector.replicate 16 (.ofNat k), ⟨0, 30 - .ofNat k⟩, ⟨0, 0⟩, 0, 0, .reachable⟩

theorem selection_conforms_iff_twoNeighbors :
    (Least twoNeighbors 0 ∧ (isAddrLinkLocal (Vector.replicate 16 1) = false →
      isAddrMcast (Vector.replicate 16 1) = false → Longest [] (Vector.replicate 16 1))) ↔
      FirstLeast twoNeighbors 0 :=
  selection_conforms_iff twoNeighbors (by decide) 0 [] (Vector.replicate 16 1)

/-- The first one is returned all the same. -/
theorem not_selection_conforms_second :
    ¬∀ (t : Neighbors) (now : UInt32), t.keys.Nodup → Least t now := by
  intro h
  have hmin := ((h twoNeighbors 0 (by decide)).some 0 (by decide +kernel)).2 1 (by decide +kernel)
  exact absurd hmin (by decide +kernel)

end Calipso.Uip.Selection
