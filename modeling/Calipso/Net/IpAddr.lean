import Mathlib.Data.Vector.Defs

/-!
# Internet addresses

The addresses of IPv6 and the tests of `uip.h` on them.
-/

namespace Calipso.Net

/-- `uip_ipaddr_t` -/
abbrev IpAddr := Vector UInt8 16

/-- The byte `u8[i]` of an address. -/
def IpAddr.u8 (a : IpAddr) (i : Nat) : UInt8 := a.get ⟨i % 16, Nat.mod_lt i (by decide)⟩

@[simp] theorem IpAddr.u8_eq (a : IpAddr) {i : Nat} (h : i < 16) : a.u8 i = a[i] := by
  have hmod : i % 16 = i := Nat.mod_eq_of_lt h
  simp only [IpAddr.u8, hmod]
  rfl

/-- `uip_is_addr_mcast` -/
def isAddrMcast (a : IpAddr) : Bool := a.u8 0 = 0xff

end Calipso.Net
