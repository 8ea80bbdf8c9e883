import Calipso.Wire.Log
import Calipso.Wire.Memory
import Mathlib.Data.List.FinRange

/-!
# Attributes in a message

`packetutils.c`: the attributes of the packet buffer as a list of records with a count before it.
The places of the buffer that are stored to, or read, are left in a log.
-/

namespace Calipso.Net

open Wire

/-- `PACKETBUF_NUM_ATTRS` -/
def numAttrs : Nat := 24

/-- The values of `packetbuf_attrs`. -/
abbrev Attrs := Fin numAttrs → UInt16

namespace Packetutils

/-! ### Serialisation -/

/-- A byte is stored. -/
def storeAt (data : Memory UInt8) (a : Int) (b : UInt8) : Log Int (Memory UInt8) := do
  Log.entry a
  return write data a [b]

/-- A record: the identifier and the value, the high byte first. -/
def storeRecord (data : Memory UInt8) (pos : Int) (i : Fin numAttrs) (val : UInt16) :
    Log Int (Memory UInt8) := do
  let data ← storeAt data pos (UInt8.ofNat i)
  let data ← storeAt data (pos + 1) (val >>> 8).toUInt8
  storeAt data (pos + 2) (val &&& 255).toUInt8

/-- The loop of `packetutils_serialize_atts`: `none` is its `return -1`. -/
def serializeLoop (attrs : Attrs) (size : Int) :
    List (Fin numAttrs) → Int → Nat → Memory UInt8 → Log Int (Option (Int × Nat) × Memory UInt8)
  | [], pos, cnt, data => return (some (pos, cnt), data)
  | i :: is, pos, cnt, data =>
    if attrs i ≠ 0 then
      if pos + 3 > size then return (none, data)
      else do
        let data ← storeRecord data pos i (attrs i)
        serializeLoop attrs size is (pos + 3) (cnt + 1) data
    else serializeLoop attrs size is pos cnt data

/-- `packetutils_serialize_atts`: what it returns, and the buffer. -/
def serializeAtts (attrs : Attrs) (data : Memory UInt8) (size : Int) :
    Log Int (Int × Memory UInt8) := do
  let r ← serializeLoop attrs size (List.finRange numAttrs) 1 0 data
  match r.1 with
  | none => return (-1, r.2)
  | some (pos, cnt) => do
    let data ← storeAt r.2 0 (UInt8.ofNat cnt)
    return (pos, data)

/-! ### Deserialisation -/

/-- A byte is read. -/
def readAt (data : Memory UInt8) (a : Int) : Log Int UInt8 := do
  Log.entry a
  return data a

/-- The loop of `packetutils_deserialize_atts`, with the number of rounds left. -/
def deserializeLoop (data : Memory UInt8) : Nat → Int → Attrs → Log Int (Int × Attrs)
  | 0, pos, attrs => return (pos, attrs)
  | k + 1, pos, attrs => do
    let id ← readAt data pos
    if h : id.toNat < numAttrs then do
      let high ← readAt data (pos + 1)
      let low ← readAt data (pos + 2)
      deserializeLoop data k (pos + 3)
        (Function.update attrs ⟨id.toNat, h⟩ (high.toUInt16 <<< 8 ||| low.toUInt16))
    else return (-1, attrs)

/-- `packetutils_deserialize_atts`: what it returns, and the attributes. Its argument `size` is not
used. -/
def deserializeAtts (data : Memory UInt8) (_size : Int) (attrs : Attrs) : Log Int (Int × Attrs) := do
  let cnt ← readAt data 0
  if cnt.toNat > numAttrs then return (-1, attrs)
  else deserializeLoop data cnt.toNat 1 attrs

/-! ### What is asked of them -/

/-- The attributes that are not zero are set, and no others. -/
def override (attrs old : Attrs) : Attrs := fun i => if attrs i ≠ 0 then attrs i else old i

/-- What is asked of `packetutils_serialize_atts`, and of the other function for its result. -/
structure Serializes (attrs : Attrs) (size : Int) : Prop where
  writes : ∀ data, (serializeAtts attrs data size).value.1 = -1 ∨
    (serializeAtts attrs data size).All fun a => 0 ≤ a ∧ a < size
  back : ∀ data old, (serializeAtts attrs data size).value.1 ≠ -1 →
    (deserializeAtts (serializeAtts attrs data size).value.2
      (serializeAtts attrs data size).value.1 old).value =
        ((serializeAtts attrs data size).value.1, override attrs old)

/-- What is asked of `packetutils_deserialize_atts` for any bytes. -/
structure Deserializes (data : Memory UInt8) (size : Int) (attrs : Attrs) : Prop where
  reads : (deserializeAtts data size attrs).All fun a => 0 ≤ a ∧ a < size
  rejected : (deserializeAtts data size attrs).value.1 = -1 →
    (deserializeAtts data size attrs).value.2 = attrs

end Packetutils

end Calipso.Net
