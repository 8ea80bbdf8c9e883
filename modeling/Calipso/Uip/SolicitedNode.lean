import Calipso.Uip.Options

/-!
# Solicited-node groups

The unicast and the multicast addresses of the interface (`uip-ds6.c`). Each unicast address is
added together with its solicited-node group and removed together with it, also where another
address has the same group. `member_iff` says for which calls every address keeps its group.
-/

namespace Calipso.Uip.SolicitedNode

open Net Sicslowpan

/-! ### State -/

/-- `uip_ds6_maddr_t` -/
structure Maddr where
  isused : Bool
  ipaddr : IpAddr

/-- `addr_list` and `maddr_list` of `uip_ds6_if`. -/
structure Interface where
  addrs : List Addr
  maddrs : List Maddr

/-- Before `uip_ds6_init`, all zero, with room for `n` addresses and `m` multicast addresses. -/
def Interface.zero (n m : Nat) : Interface where
  addrs := List.replicate n ⟨false, Vector.replicate 16 0, .tentative, .anytype, false, ⟨0, 0⟩⟩
  maddrs := List.replicate m ⟨false, Vector.replicate 16 0⟩

/-- `uip_create_solicited_node` -/
def createSolicitedNode (a : IpAddr) : IpAddr :=
  #v[0xff, 0x02, 0, 0, 0, 0, 0, 0, 0, 0, 0, 0x01, 0xff, a.u8 13, a.u8 14, a.u8 15]

/-- `uip_create_linklocal_allnodes_mcast` -/
def allnodesMcast : IpAddr := linklocalAllnodesMcast

/-- `uip_create_linklocal_allrouters_mcast` -/
def allroutersMcast : IpAddr := #v[0xff, 0x02, 0, 0, 0, 0, 0, 0, 0, 0, 0, 0, 0, 0, 0, 0x02]

/-! ### Calls -/

/-- `uip_ds6_maddr_lookup` -/
def maddrLookup (maddrs : List Maddr) (ipaddr : IpAddr) : Option Nat :=
  (listLoop Maddr.isused (fun m => m.ipaddr = ipaddr) maddrs 0 none).element

/-- `uip_ds6_maddr_add` -/
def maddrAdd (maddrs : List Maddr) (ipaddr : IpAddr) : List Maddr :=
  match listLoop Maddr.isused (fun m => m.ipaddr = ipaddr) maddrs 0 none with
  | .freespace i => maddrs.modify i fun _ => ⟨true, ipaddr⟩
  | _ => maddrs

/-- `uip_ds6_maddr_rm` -/
def maddrRm (maddrs : List Maddr) (i : Nat) : List Maddr :=
  maddrs.modify i fun m => { m with isused := false }

namespace Interface

variable (s : Interface)

/-- `uip_ds6_addr_add` -/
def addrAdd (now : UInt32) (ipaddr : IpAddr) (vlifetime : UInt32) (type : AddrType) : Interface :=
  match listLoop Addr.isused (fun a => a.ipaddr = ipaddr) s.addrs 0 none with
  | .freespace _ =>
    { addrs := Uip.addrAdd now s.addrs ipaddr vlifetime type
      maddrs := maddrAdd s.maddrs (createSolicitedNode ipaddr) }
  | _ => s

/-- `uip_ds6_addr_rm` for the element `i`. -/
def addrRm (i : Nat) : Interface :=
  match s.addrs[i]? with
  | none => s
  | some a =>
    { addrs := Uip.addrRm s.addrs i
      maddrs :=
        match maddrLookup s.maddrs (createSolicitedNode a.ipaddr) with
        | none => s.maddrs
        | some j => maddrRm s.maddrs j }

/-- `uip_ds6_dad_failed` for the element `i`. -/
def dadFailed (i : Nat) : Interface :=
  if s.addrs[i]?.any fun a => isAddrLinkLocal a.ipaddr then s else s.addrRm i

end Interface

/-- A call of the stack; elements are given by their place. -/
inductive Call
  | addrAdd (now : UInt32) (ipaddr : IpAddr) (vlifetime : UInt32) (type : AddrType)
  | addrRm (i : Nat)
  | dadFailed (i : Nat)
  | maddrAdd (ipaddr : IpAddr)
  | maddrRm (i : Nat)

def Call.run (s : Interface) : Call → Interface
  | .addrAdd now ipaddr vlifetime type => s.addrAdd now ipaddr vlifetime type
  | .addrRm i => s.addrRm i
  | .dadFailed i => s.dadFailed i
  | .maddrAdd ipaddr => { s with maddrs := SolicitedNode.maddrAdd s.maddrs ipaddr }
  | .maddrRm i => { s with maddrs := SolicitedNode.maddrRm s.maddrs i }

def run (s : Interface) (cs : List Call) : Interface := cs.foldl Call.run s

/-- What `uip_ds6_init` calls, on a router. -/
def init (lladdr : LlAddr) : List Call :=
  [.addrAdd 0 (setAddrIid linkLocal lladdr) 0 .autoconf, .maddrAdd allnodesMcast,
    .maddrAdd allroutersMcast]

/-! ### What is asked -/

/-- The element at the place `i` is in use and has the address `x`. -/
def InUseAt {α : Type} (isused : α → Bool) (ipaddr : α → IpAddr) (l : List α) (i : Nat)
    (x : IpAddr) : Prop :=
  ∃ e, l[i]? = some e ∧ isused e ∧ ipaddr e = x

/-- The unicast address at the place `i` is in use. -/
abbrev AddrAt (addrs : List Addr) : Nat → IpAddr → Prop := InUseAt Addr.isused Addr.ipaddr addrs

/-- The multicast address at the place `i` is in use. -/
abbrev GroupAt (maddrs : List Maddr) : Nat → IpAddr → Prop :=
  InUseAt Maddr.isused Maddr.ipaddr maddrs

/-- No address is twice in a list. -/
def NoneTwice {α : Type} (isused : α → Bool) (ipaddr : α → IpAddr) (l : List α) : Prop :=
  ∀ i j x, InUseAt isused ipaddr l i x → InUseAt isused ipaddr l j x → i = j

/-- `uip_ds6_is_my_maddr` holds of the group of each address, and no address is there twice. -/
structure Interface.Conforms (s : Interface) : Prop where
  member : ∀ i x, AddrAt s.addrs i x →
    (maddrLookup s.maddrs (createSolicitedNode x)).isSome
  addrs : NoneTwice Addr.isused Addr.ipaddr s.addrs
  maddrs : NoneTwice Maddr.isused Maddr.ipaddr s.maddrs

/-- No other address has the group of the element `i`. -/
def Interface.Alone (s : Interface) (i : Nat) : Prop :=
  ∀ a, s.addrs[i]? = some a → ∀ j x, j ≠ i → AddrAt s.addrs j x →
    createSolicitedNode x ≠ createSolicitedNode a.ipaddr

/-- There is room for the group of an address that is added, or it is there; no other address has
the group of one that is removed; and no address has a group that is removed. -/
def Call.Holds (s : Interface) : Call → Prop
  | .addrAdd _ ipaddr _ _ =>
    (∀ i, ¬AddrAt s.addrs i ipaddr) → (∃ a ∈ s.addrs, a.isused = false) →
      (∃ i, GroupAt s.maddrs i (createSolicitedNode ipaddr)) ∨
        ∃ m ∈ s.maddrs, m.isused = false
  | .addrRm i => s.Alone i
  | .dadFailed i => (∀ a, s.addrs[i]? = some a → isAddrLinkLocal a.ipaddr = false) → s.Alone i
  | .maddrAdd _ => True
  | .maddrRm i => ∀ g, GroupAt s.maddrs i g →
    ∀ j x, AddrAt s.addrs j x → createSolicitedNode x ≠ g

/-- Every call of a run meets the condition in the state it comes to. -/
def CallsHold : Interface → List Call → Prop
  | _, [] => True
  | s, c :: cs => c.Holds s ∧ CallsHold (c.run s) cs

/-! ### Elements -/

section

variable {α : Type} {isused cmp : α → Bool} {ipaddr : α → IpAddr} {l : List α} {i j : Nat}
  {x y : IpAddr}

/-- What the loop over a list has found. -/
inductive Looked (isused cmp : α → Bool) (l : List α) : Place → Prop
  | found {i : Nat} {e : α} (he : l[i]? = some e) (hused : isused e = true)
    (hcmp : cmp e = true) : Looked isused cmp l (.found i)
  | freespace {i : Nat} {e : α} (he : l[i]? = some e) (hused : isused e = false)
    (hnone : ∀ e ∈ l, isused e = true → cmp e = false) : Looked isused cmp l (.freespace i)
  | nospace (hall : ∀ e ∈ l, isused e = true ∧ cmp e = false) : Looked isused cmp l .nospace

theorem looked_append {pre : List α} {out : Option Nat}
    (hnone : ∀ e ∈ pre, isused e = true → cmp e = false)
    (hout : ∀ i, out = some i → ∃ e, pre[i]? = some e ∧ isused e = false)
    (hall : out = none → ∀ e ∈ pre, isused e = true) :
    Looked isused cmp (pre ++ l) (listLoop isused cmp l pre.length out) := by
  induction l generalizing pre out with
  | nil =>
      rw [List.append_nil]
      cases out with
      | none => exact .nospace fun e he => ⟨hall rfl e he, hnone e he (hall rfl e he)⟩
      | some i =>
          obtain ⟨e, he, hused⟩ := hout i rfl
          exact .freespace he hused hnone
  | cons a l ih =>
      have hassoc : pre ++ a :: l = (pre ++ [a]) ++ l := by simp
      have hlength : pre.length + 1 = (pre ++ [a]).length := by simp
      unfold listLoop
      split_ifs with hused hcmp
      · exact .found (by simp) hused hcmp
      · rw [hassoc, hlength]
        apply ih
        · intro e he hused'
          obtain he | he := List.mem_append.mp he
          · exact hnone e he hused'
          · rw [List.mem_singleton.mp he]
            exact Bool.eq_false_iff.mpr hcmp
        · intro i hi
          obtain ⟨e, he, hused'⟩ := hout i hi
          exact ⟨e, List.getElem?_append_left (List.getElem?_eq_some_iff.mp he).1 ▸ he, hused'⟩
        · intro hnil e he
          obtain he | he := List.mem_append.mp he
          · exact hall hnil e he
          · rw [List.mem_singleton.mp he]
            exact hused
      · rw [hassoc, hlength]
        apply ih
        · intro e he hused'
          obtain he | he := List.mem_append.mp he
          · exact hnone e he hused'
          · rw [List.mem_singleton.mp he] at hused'
            exact absurd hused' hused
        · intro i hi
          obtain rfl := Option.some_inj.mp hi
          exact ⟨a, by simp, Bool.eq_false_iff.mpr hused⟩
        · exact fun h => nomatch h

theorem looked_listLoop (isused cmp : α → Bool) (l : List α) :
    Looked isused cmp l (listLoop isused cmp l 0 none) :=
  looked_append (List.forall_mem_nil _) (fun _ h => nomatch h)
    fun _ => List.forall_mem_nil _

/-- An element that was not in use now is, with the address `x`. -/
theorem inUseAt_modify_new {e : α} {f : α → α} (he : l[i]? = some e) (hused : isused e = false)
    (hf : isused (f e) = true) (hx : ipaddr (f e) = x) :
    InUseAt isused ipaddr (l.modify i f) j y ↔ InUseAt isused ipaddr l j y ∨ j = i ∧ y = x := by
  unfold InUseAt
  rw [List.getElem?_modify]
  by_cases hij : i = j
  · subst hij
    simp only [he, Option.map_eq_map, Option.map_some, if_pos, Option.some.injEq]
    constructor
    · rintro ⟨_, rfl, -, rfl⟩
      exact .inr ⟨trivial, hx⟩
    · rintro (⟨_, rfl, h, -⟩ | ⟨-, rfl⟩)
      · exact absurd h (Bool.eq_false_iff.mp hused)
      · exact ⟨_, rfl, hf, hx⟩
  · simp [hij, Ne.symm hij]

/-- The element `i` is not in use any more. -/
theorem inUseAt_modify_unused {f : α → α} (hf : ∀ e, isused (f e) = false) :
    InUseAt isused ipaddr (l.modify i f) j y ↔ InUseAt isused ipaddr l j y ∧ j ≠ i := by
  unfold InUseAt
  rw [List.getElem?_modify]
  by_cases hij : i = j
  · subst hij
    simp [hf]
  · simp [hij, Ne.symm hij]

theorem inUseAt_of_found (h : listLoop isused (fun e => ipaddr e = x) l 0 none = .found i) :
    InUseAt isused ipaddr l i x := by
  have hlooked := looked_listLoop isused (fun e => decide (ipaddr e = x)) l
  rw [h] at hlooked
  cases hlooked with
  | found he hused hcmp => exact ⟨_, he, hused, of_decide_eq_true hcmp⟩

theorem not_inUseAt (hnone : ∀ e ∈ l, isused e = true → decide (ipaddr e = x) = false) :
    ∀ i, ¬InUseAt isused ipaddr l i x := by
  rintro i ⟨e, he, hused, hx⟩
  exact of_decide_eq_false (hnone e (List.mem_of_getElem? he) hused) hx

theorem NoneTwice.modify_new {e : α} {f : α → α} (h : NoneTwice isused ipaddr l)
    (he : l[i]? = some e) (hused : isused e = false) (hf : isused (f e) = true)
    (hx : ipaddr (f e) = x) (hnone : ∀ j, ¬InUseAt isused ipaddr l j x) :
    NoneTwice isused ipaddr (l.modify i f) := by
  intro j k y hj hk
  rw [inUseAt_modify_new he hused hf hx] at hj hk
  obtain hj | ⟨rfl, rfl⟩ := hj
  · obtain hk | ⟨rfl, rfl⟩ := hk
    · exact h j k y hj hk
    · exact absurd hj (hnone j)
  · obtain hk | ⟨rfl, -⟩ := hk
    · exact absurd hk (hnone k)
    · rfl

theorem NoneTwice.modify_unused {f : α → α} (h : NoneTwice isused ipaddr l)
    (hf : ∀ e, isused (f e) = false) (i : Nat) : NoneTwice isused ipaddr (l.modify i f) := by
  intro j k y hj hk
  exact h j k y ((inUseAt_modify_unused hf).mp hj).1 ((inUseAt_modify_unused hf).mp hk).1

end

/-! ### Groups -/

variable {maddrs : List Maddr} {g x : IpAddr} {i : Nat}

/-- The interface is a member of the group `g`. -/
def Joined (maddrs : List Maddr) (g : IpAddr) : Prop :=
  ∃ i, GroupAt maddrs i g

theorem isSome_maddrLookup : (maddrLookup maddrs g).isSome ↔ Joined maddrs g := by
  unfold maddrLookup
  have hlooked := looked_listLoop Maddr.isused (fun m => decide (m.ipaddr = g)) maddrs
  cases hloop : listLoop Maddr.isused (fun m => m.ipaddr = g) maddrs 0 none with
  | found i => exact iff_of_true rfl ⟨i, inUseAt_of_found hloop⟩
  | freespace i =>
      rw [hloop] at hlooked
      cases hlooked with
      | freespace _ _ hnone =>
          exact iff_of_false Bool.false_ne_true fun ⟨j, hj⟩ => not_inUseAt hnone j hj
  | nospace =>
      rw [hloop] at hlooked
      cases hlooked with
      | nospace hall =>
          exact iff_of_false Bool.false_ne_true fun ⟨j, hj⟩ =>
            not_inUseAt (fun e he _ => (hall e he).2) j hj

theorem joined_maddrAdd : Joined (maddrAdd maddrs g) x ↔
    Joined maddrs x ∨ x = g ∧ ∃ m ∈ maddrs, m.isused = false := by
  unfold maddrAdd
  have hlooked := looked_listLoop Maddr.isused (fun m => decide (m.ipaddr = g)) maddrs
  cases hloop : listLoop Maddr.isused (fun m => m.ipaddr = g) maddrs 0 none with
  | found i =>
      refine ⟨.inl, ?_⟩
      rintro (hx | ⟨rfl, -⟩)
      · exact hx
      · exact ⟨i, inUseAt_of_found hloop⟩
  | freespace i =>
      rw [hloop] at hlooked
      cases hlooked with
      | freespace he hused _ =>
          have hnew (j : Nat) : GroupAt (maddrs.modify i fun _ => ⟨true, g⟩) j x ↔
              GroupAt maddrs j x ∨ j = i ∧ x = g := inUseAt_modify_new he hused rfl rfl
          constructor
          · rintro ⟨j, hj⟩
            obtain hj | ⟨-, rfl⟩ := (hnew j).mp hj
            · exact .inl ⟨j, hj⟩
            · exact .inr ⟨rfl, _, List.mem_of_getElem? he, hused⟩
          · rintro (⟨j, hj⟩ | ⟨rfl, -⟩)
            · exact ⟨j, (hnew j).mpr (.inl hj)⟩
            · exact ⟨i, (hnew i).mpr (.inr ⟨rfl, rfl⟩)⟩
  | nospace =>
      rw [hloop] at hlooked
      cases hlooked with
      | nospace hall =>
          refine ⟨.inl, ?_⟩
          rintro (hx | ⟨-, m, hm, hused⟩)
          · exact hx
          · exact absurd (hall m hm).1 (Bool.eq_false_iff.mp hused)

theorem noneTwice_maddrAdd (h : NoneTwice Maddr.isused Maddr.ipaddr maddrs) (g : IpAddr) :
    NoneTwice Maddr.isused Maddr.ipaddr (maddrAdd maddrs g) := by
  unfold maddrAdd
  have hlooked := looked_listLoop Maddr.isused (fun m => decide (m.ipaddr = g)) maddrs
  cases hloop : listLoop Maddr.isused (fun m => m.ipaddr = g) maddrs 0 none with
  | found i => exact h
  | freespace i =>
      rw [hloop] at hlooked
      cases hlooked with
      | freespace he hused hnone => exact h.modify_new he hused rfl rfl (not_inUseAt hnone)
  | nospace => exact h

/-- Where no group is twice, the removal of an element ends the membership of its group. -/
theorem joined_maddrRm (h : NoneTwice Maddr.isused Maddr.ipaddr maddrs)
    (hi : GroupAt maddrs i g) :
    Joined (maddrRm maddrs i) x ↔ Joined maddrs x ∧ x ≠ g := by
  have hunused (j : Nat) : GroupAt (maddrRm maddrs i) j x ↔ GroupAt maddrs j x ∧ j ≠ i :=
    inUseAt_modify_unused fun _ => rfl
  constructor
  · rintro ⟨j, hj⟩
    obtain ⟨hj, hne⟩ := (hunused j).mp hj
    refine ⟨⟨j, hj⟩, ?_⟩
    rintro rfl
    exact hne (h j i x hj hi)
  · rintro ⟨⟨j, hj⟩, hne⟩
    refine ⟨j, (hunused j).mpr ⟨hj, ?_⟩⟩
    rintro rfl
    obtain ⟨m, hm, -, hx⟩ := hj
    obtain ⟨m', hm', -, hg⟩ := hi
    cases hm.symm.trans hm'
    exact hne (hx.symm.trans hg)

/-! ### Steps -/

variable {s : Interface} {c : Call}

/-- The conditions on the addresses and the groups of the interface. -/
theorem conforms_iff : s.Conforms ↔
    (∀ i x, AddrAt s.addrs i x → Joined s.maddrs (createSolicitedNode x)) ∧
      NoneTwice Addr.isused Addr.ipaddr s.addrs ∧ NoneTwice Maddr.isused Maddr.ipaddr s.maddrs :=
  ⟨fun h => ⟨fun i x hx => isSome_maddrLookup.mp (h.member i x hx), h.addrs, h.maddrs⟩,
    fun h => ⟨fun i x hx => isSome_maddrLookup.mpr (h.1 i x hx), h.2.1, h.2.2⟩⟩

theorem Interface.Conforms.joined (h : s.Conforms) {i : Nat} {x : IpAddr}
    (hx : AddrAt s.addrs i x) : Joined s.maddrs (createSolicitedNode x) :=
  (conforms_iff.mp h).1 i x hx

theorem conforms_addrAdd_iff (h : s.Conforms) (now : UInt32) (ipaddr : IpAddr)
    (vlifetime : UInt32) (type : AddrType) :
    (s.addrAdd now ipaddr vlifetime type).Conforms ↔
      Call.Holds s (.addrAdd now ipaddr vlifetime type) := by
  have hlooked := looked_listLoop Addr.isused (fun a => decide (a.ipaddr = ipaddr)) s.addrs
  unfold Interface.addrAdd
  cases hloop : listLoop Addr.isused (fun a => a.ipaddr = ipaddr) s.addrs 0 none with
  | found i => exact iff_of_true h fun hnone => absurd (inUseAt_of_found hloop) (hnone i)
  | nospace =>
      rw [hloop] at hlooked
      cases hlooked with
      | nospace hall =>
          refine iff_of_true h ?_
          rintro - ⟨a, ha, hused⟩
          exact absurd (hall a ha).1 (Bool.eq_false_iff.mp hused)
  | freespace i =>
      rw [hloop] at hlooked
      cases hlooked with
      | freespace he hused hnone =>
          have hnew (j : Nat) (x : IpAddr) :
              AddrAt (Uip.addrAdd now s.addrs ipaddr vlifetime type) j x ↔
                AddrAt s.addrs j x ∨ j = i ∧ x = ipaddr := by
            unfold Uip.addrAdd
            rw [hloop]
            exact inUseAt_modify_new he hused rfl rfl
          have htwice : NoneTwice Addr.isused Addr.ipaddr
              (Uip.addrAdd now s.addrs ipaddr vlifetime type) := by
            unfold Uip.addrAdd
            rw [hloop]
            exact h.addrs.modify_new he hused rfl rfl (not_inUseAt hnone)
          rw [conforms_iff]
          constructor
          · rintro ⟨hmember, -⟩ - -
            obtain hjoined | ⟨-, hfree⟩ :=
              joined_maddrAdd.mp (hmember i ipaddr ((hnew i ipaddr).mpr (.inr ⟨rfl, rfl⟩)))
            · exact .inl hjoined
            · exact .inr hfree
          · intro hholds
            have hroom := hholds (not_inUseAt hnone) ⟨_, List.mem_of_getElem? he, hused⟩
            refine ⟨fun j x hx => joined_maddrAdd.mpr ?_, htwice, noneTwice_maddrAdd h.maddrs _⟩
            obtain hx | ⟨-, rfl⟩ := (hnew j x).mp hx
            · exact .inl (h.joined hx)
            · obtain hjoined | hfree := hroom
              · exact .inl hjoined
              · exact .inr ⟨rfl, hfree⟩

theorem conforms_addrRm_iff (h : s.Conforms) (i : Nat) :
    (s.addrRm i).Conforms ↔ s.Alone i := by
  unfold Interface.addrRm
  cases hi : s.addrs[i]? with
  | none => exact iff_of_true h fun a ha => nomatch hi.symm.trans ha
  | some a =>
      have hunused (j : Nat) (x : IpAddr) :
          AddrAt (Uip.addrRm s.addrs i) j x ↔ AddrAt s.addrs j x ∧ j ≠ i :=
        inUseAt_modify_unused fun _ => rfl
      have htwice : NoneTwice Addr.isused Addr.ipaddr (Uip.addrRm s.addrs i) :=
        h.addrs.modify_unused (fun _ => rfl) i
      have halone : s.Alone i ↔ ∀ j x, j ≠ i → AddrAt s.addrs j x →
          createSolicitedNode x ≠ createSolicitedNode a.ipaddr := by
        refine ⟨fun ha => ha a hi, fun ha b hb => ?_⟩
        cases hi.symm.trans hb
        exact ha
      rw [halone, conforms_iff]
      dsimp only
      cases hlookup : maddrLookup s.maddrs (createSolicitedNode a.ipaddr) with
      | none =>
          refine iff_of_true ⟨fun j x hx => ?_, htwice, h.maddrs⟩ fun j x _ hx heq => ?_
          · exact h.joined ((hunused j x).mp hx).1
          · have hsome := isSome_maddrLookup.mpr (heq ▸ h.joined hx)
            rw [hlookup] at hsome
            cases hsome
      | some k =>
          have hk : GroupAt s.maddrs k (createSolicitedNode a.ipaddr) := by
            unfold maddrLookup at hlookup
            cases hloop : listLoop Maddr.isused (fun m => m.ipaddr = createSolicitedNode a.ipaddr)
              s.maddrs 0 none <;> rw [hloop] at hlookup <;> cases hlookup
            exact inUseAt_of_found hloop
          have hgroups : NoneTwice Maddr.isused Maddr.ipaddr (maddrRm s.maddrs k) :=
            h.maddrs.modify_unused (fun _ => rfl) k
          constructor
          · rintro ⟨hmember, -⟩ j x hj hx
            exact ((joined_maddrRm h.maddrs hk).mp (hmember j x ((hunused j x).mpr ⟨hx, hj⟩))).2
          · intro hne
            refine ⟨fun j x hx => ?_, htwice, hgroups⟩
            obtain ⟨hx, hj⟩ := (hunused j x).mp hx
            exact (joined_maddrRm h.maddrs hk).mpr ⟨h.joined hx, hne j x hj hx⟩

theorem conforms_dadFailed_iff (h : s.Conforms) (i : Nat) :
    (s.dadFailed i).Conforms ↔ Call.Holds s (.dadFailed i) := by
  unfold Interface.dadFailed
  split_ifs with hlocal
  · obtain ⟨a, ha, hlocal⟩ := (Option.any_eq_true _ _).mp hlocal
    exact iff_of_true h fun hnone => absurd hlocal (Bool.eq_false_iff.mp (hnone a ha))
  · rw [conforms_addrRm_iff h]
    refine ⟨fun halone _ => halone, fun halone => halone fun a ha => ?_⟩
    rw [ha] at hlocal
    exact Bool.eq_false_iff.mpr hlocal

theorem conforms_maddrRm_iff (h : s.Conforms) (i : Nat) :
    Interface.Conforms { s with maddrs := maddrRm s.maddrs i } ↔ Call.Holds s (.maddrRm i) := by
  have htwice : NoneTwice Maddr.isused Maddr.ipaddr (maddrRm s.maddrs i) :=
    h.maddrs.modify_unused (fun _ => rfl) i
  rw [conforms_iff]
  by_cases hused : ∃ g, GroupAt s.maddrs i g
  · obtain ⟨g, hg⟩ := hused
    constructor
    · rintro ⟨hmember, -⟩ g' hg' j x hx
      rintro rfl
      exact ((joined_maddrRm h.maddrs hg').mp (hmember j x hx)).2 rfl
    · intro hholds
      refine ⟨fun j x hx => ?_, h.addrs, htwice⟩
      exact (joined_maddrRm h.maddrs hg).mpr ⟨h.joined hx, hholds g hg j x hx⟩
  · refine iff_of_true ⟨fun j x hx => ?_, h.addrs, htwice⟩ fun g hg => absurd ⟨g, hg⟩ hused
    obtain ⟨k, hk⟩ := h.joined hx
    refine ⟨k, (inUseAt_modify_unused fun _ => rfl).mpr ⟨hk, ?_⟩⟩
    rintro rfl
    exact hused ⟨_, hk⟩

/-- A call keeps what is asked exactly if it meets the condition. -/
theorem Interface.Conforms.run_iff (h : s.Conforms) (c : Call) :
    (c.run s).Conforms ↔ c.Holds s := by
  cases c with
  | addrAdd now ipaddr vlifetime type => exact conforms_addrAdd_iff h now ipaddr vlifetime type
  | addrRm i => exact conforms_addrRm_iff h i
  | dadFailed i => exact conforms_dadFailed_iff h i
  | maddrAdd ipaddr =>
      refine iff_of_true (conforms_iff.mpr ⟨fun j x hx => ?_, h.addrs, ?_⟩) trivial
      · exact joined_maddrAdd.mpr (.inl (h.joined hx))
      · exact noneTwice_maddrAdd h.maddrs ipaddr
  | maddrRm i => exact conforms_maddrRm_iff h i

/-- The states of a run are all as asked exactly if its calls meet the condition. -/
theorem Interface.Conforms.forall_iff (h : s.Conforms) (cs : List Call) :
    (∀ k, (run s (cs.take k)).Conforms) ↔ CallsHold s cs := by
  induction cs generalizing s with
  | nil =>
      refine iff_of_true (fun k => ?_) trivial
      rw [List.take_nil]
      exact h
  | cons c cs ih =>
      constructor
      · intro hall
        have hc : (c.run s).Conforms := hall 1
        exact ⟨(h.run_iff c).mp hc, (ih hc).mp fun k => hall (k + 1)⟩
      · rintro ⟨hc, hcs⟩ k
        cases k with
        | zero => exact h
        | succ k => exact (ih ((h.run_iff c).mpr hc)).mpr hcs k

theorem conforms_zero (n m : Nat) : (Interface.zero n m).Conforms := by
  have hnone {α : Type} {isused : α → Bool} {ipaddr : α → IpAddr} {e : α} {k : Nat}
      (he : isused e = false) (i : Nat) (x : IpAddr) :
      ¬InUseAt isused ipaddr (List.replicate k e) i x := by
    rintro ⟨e', he', hused, -⟩
    obtain rfl := List.eq_of_mem_replicate (List.mem_of_getElem? he')
    exact absurd hused (Bool.eq_false_iff.mp he)
  exact ⟨fun i x hx => absurd hx (hnone rfl i x), fun i j x hi => absurd hi (hnone rfl i x),
    fun i j x hi => absurd hi (hnone rfl i x)⟩

/-! ### The main result -/

/-- From `uip_ds6_init` on, each address keeps its group and none is twice, exactly if no call takes
away a group that an address has or adds an address whose group has no room. -/
theorem member_iff (n m : Nat) (lladdr : LlAddr) (cs : List Call) :
    (∀ k, (run (.zero n m) ((init lladdr ++ cs).take k)).Conforms) ↔
      CallsHold (.zero n m) (init lladdr ++ cs) :=
  (conforms_zero n m).forall_iff _

/-- A global address is removed that was made of the same identifier as the link-local one. -/
theorem not_member_renumbered :
    ¬∀ (n m : Nat) (lladdr : LlAddr) (cs : List Call) (k : Nat),
      (run (.zero n m) ((init lladdr ++ cs).take k)).Conforms := by
  intro h
  have hlost := (h 3 5 #v[2, 0, 0, 0, 0, 1]
    [.addrAdd 0 (setAddrIid #v[0xaa, 0xaa, 0, 0, 0, 0, 0, 0, 0, 0, 0, 0, 0, 0, 0, 0]
      #v[2, 0, 0, 0, 0, 1]) 0 .autoconf, .addrRm 1] 5).member 2
    (setAddrIid linkLocal #v[2, 0, 0, 0, 0, 1])
  exact absurd (hlost ⟨_, rfl, rfl, rfl⟩) (by decide +kernel)

end Calipso.Uip.SolicitedNode
