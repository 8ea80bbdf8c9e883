import Calipso.Sicslowpan.Header
import Mathlib.Tactic.IntervalCases

/-!
# Addresses under compression

The tests of `uip.h` and `sicslowpan.h` on an address, the interface identifier that is
built from a link-layer address, and when the one is undone by the other.
-/

namespace Calipso.Sicslowpan

open Wire Net

/-- `uip_lladdr_t` -/
abbrev LlAddr := Vector UInt8 6

/-- The word `u16[k]` of an address is zero. -/
def wordZero (a : IpAddr) (k : Nat) : Bool := a.u8 (2 * k) == 0 && a.u8 (2 * k + 1) == 0

/-- `uip_is_addr_unspecified` -/
def isAddrUnspecified (a : IpAddr) : Bool :=
  wordZero a 0 && wordZero a 1 && wordZero a 2 && wordZero a 3 && wordZero a 4 &&
    wordZero a 5 && wordZero a 6 && wordZero a 7

/-- `uip_is_addr_link_local` -/
def isAddrLinkLocal (a : IpAddr) : Bool := a.u8 0 == 0xfe && a.u8 1 == 0x80

/-- `uip_is_addr_mac_addr_based`, for addresses of six bytes. -/
def isAddrMacAddrBased (a : IpAddr) (m : LlAddr) : Bool :=
  a.u8 8 == m[0] ||| 0x02 && a.u8 9 == m[1] && a.u8 10 == m[2] && a.u8 11 == 0xff &&
    a.u8 12 == 0xfe && a.u8 13 == m[3] && a.u8 14 == m[4] && a.u8 15 == m[5]

/-- `uip_ds6_set_addr_iid`, for addresses of six bytes. -/
def setAddrIid (a : IpAddr) (m : LlAddr) : IpAddr :=
  #v[a.u8 0, a.u8 1, a.u8 2, a.u8 3, a.u8 4, a.u8 5, a.u8 6, a.u8 7,
    m[0] ^^^ 0x02, m[1], m[2], 0xff, 0xfe, m[3], m[4], m[5]]

/-- The words between the link-local prefix and the interface identifier are zero. -/
def prefixZero (a : IpAddr) : Bool := wordZero a 1 && wordZero a 2 && wordZero a 3

/-- The address that `uip_ip6addr` makes of the link-local prefix. -/
def linkLocal : IpAddr := #v[0xfe, 0x80, 0, 0, 0, 0, 0, 0, 0, 0, 0, 0, 0, 0, 0, 0]

/-! ### Interface identifiers -/

/-- The test sets the bit for universal addresses and the construction flips it: they are
inverse exactly on link-layer addresses without the bit. -/
theorem or_two_eq_xor_two (b : UInt8) : b ||| 2 = b ^^^ 2 ↔ b &&& 2 = 0 := by
  apply forall_byte (P := fun b => b ||| 2 = b ^^^ 2 ↔ b &&& 2 = 0)
  decide +kernel

/-- The interface identifier of an address that passes the test is given back. -/
def IidRestored (m : LlAddr) : Prop := m[0] &&& 2 = 0

instance (m : LlAddr) : Decidable (IidRestored m) := inferInstanceAs (Decidable (_ = _))

theorem getElem_setAddrIid {a : IpAddr} (m : LlAddr) {i : Nat} (hi : i < 8) :
    (setAddrIid a m)[i] = a[i] := by
  interval_cases i <;> rfl

/-- Building the identifier again on the same first eight bytes. -/
theorem setAddrIid_eq_iff {a b : IpAddr} {m : LlAddr} (ha : isAddrMacAddrBased a m)
    (hb : ∀ i (hi : i < 8), b[i] = a[i]) : setAddrIid b m = a ↔ IidRestored m := by
  simp only [isAddrMacAddrBased, Bool.and_eq_true, beq_iff_eq] at ha
  obtain ⟨⟨⟨⟨⟨⟨⟨h8, h9⟩, h10⟩, h11⟩, h12⟩, h13⟩, h14⟩, h15⟩ := ha
  rw [IidRestored, ← or_two_eq_xor_two, ← h8]
  constructor
  · intro h
    have hat : (setAddrIid b m)[8] = a[8] := by rw [h]
    simpa [setAddrIid, eq_comm] using hat
  · intro h
    apply Vector.ext
    intro i hi
    by_cases hlt : i < 8
    · rw [getElem_setAddrIid m hlt, hb i hlt]
    · interval_cases i <;> simp_all [setAddrIid]

/-- The link-local address of a node is given back when it has no other prefix bits. -/
theorem setAddrIid_linkLocal_iff {a : IpAddr} {m : LlAddr} (hlocal : isAddrLinkLocal a)
    (ha : isAddrMacAddrBased a m) :
    setAddrIid linkLocal m = a ↔ prefixZero a ∧ IidRestored m := by
  simp only [isAddrLinkLocal, Bool.and_eq_true, beq_iff_eq] at hlocal
  have hfirst (hzero : prefixZero a) : ∀ i (hi : i < 8), linkLocal[i] = a[i] := by
    simp only [prefixZero, wordZero, Bool.and_eq_true, beq_iff_eq] at hzero
    intro i hi
    interval_cases i <;> simp_all [linkLocal]
  constructor
  · intro h
    have hzero : prefixZero a := by
      rw [← h]
      rfl
    exact ⟨hzero, (setAddrIid_eq_iff ha (hfirst hzero)).mp h⟩
  · rintro ⟨hzero, hm⟩
    exact (setAddrIid_eq_iff ha (hfirst hzero)).mpr hm

end Calipso.Sicslowpan
