import Mathlib.Data.Vector.Defs

/-!
# Link-layer addresses

The two types of a link-layer address: the six bytes of `uip_lladdr_t` and the eight bytes of
`rimeaddr_t`, which casts put over one another.
-/

namespace Calipso.Net

/-- `uip_lladdr_t` with `UIP_CONF_LL_80211` -/
abbrev Lladdr := Vector UInt8 6

/-- `rimeaddr_t` with `RIMEADDR_CONF_SIZE` 8: the bytes of a `uip_lladdr_t` and the two behind
them. `rimeaddr_cmp` compares all eight. -/
structure Rimeaddr where
  lladdr : Lladdr
  rest : UInt8 × UInt8
deriving DecidableEq

/-- `rimeaddr_null` -/
def Rimeaddr.null : Rimeaddr where
  lladdr := Vector.replicate 6 0
  rest := (0, 0)

/-- `memcpy` of `UIP_LLADDR_LEN` bytes into a `rimeaddr_t`. -/
def Rimeaddr.copyLladdr (a : Rimeaddr) (l : Lladdr) : Rimeaddr := { a with lladdr := l }

end Calipso.Net
