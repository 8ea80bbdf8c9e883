import Mathlib.Tactic

/-!
# Return values of a MAC layer
-/

namespace Calipso.Net

/-- The generic MAC return values, in the order of the enumeration. -/
inductive MacTx
  | ok
  | collision
  | noack
  | deferred
  | err
  | errFatal
  deriving DecidableEq, Repr

/-- The number that C gives to the return value. -/
def MacTx.toNat : MacTx → ℕ
  | .ok => 0
  | .collision => 1
  | .noack => 2
  | .deferred => 3
  | .err => 4
  | .errFatal => 5

end Calipso.Net
