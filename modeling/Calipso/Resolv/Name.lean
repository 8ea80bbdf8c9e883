import Mathlib.Data.List.Basic
import Mathlib.Tactic.Common

/-!
# Names of the resolver

The four loops of `resolv.c` over an encoded name: `encode_name`, `decode_name`,
`dns_name_isequal` and `skip_name`. A place in the packet is the list of the bytes from there on,
and a byte outside the packet ends a function without a result.
-/

namespace Calipso.Resolv

/-! ### Functions -/

/-- `RESOLV_CONF_MAX_DOMAIN_NAME_SIZE` -/
def maxDomainNameSize : Nat := 32

/-- The character `'.'`. -/
def dot : UInt8 := 0x2e

/-- `tolower` -/
def tolower (c : UInt8) : UInt8 := if 0x41 ≤ c ∧ c ≤ 0x5a then c + 0x20 else c

/-- The rest of the name for `encode_name`, behind the bytes of `label`, which `n` counts. -/
def encodeLoop (n : UInt8) (label : List UInt8) : List UInt8 → List UInt8
  | [] => n :: (label ++ [0])
  | c :: nameptr =>
    if c = dot then n :: (label ++ encodeLoop 0 [] nameptr)
    else encodeLoop (n + 1) (label ++ [c]) nameptr

/-- `encode_name` -/
def encodeName (nameptr : List UInt8) : List UInt8 := encodeLoop 0 [] nameptr

/-- `skip_name`, with the bytes behind the name; it reads at most `fuel` labels. -/
def skipLoop : Nat → List UInt8 → Option (List UInt8)
  | 0, _ => none
  | _ + 1, [] => none
  | fuel + 1, n :: query =>
    if n &&& 0xc0 ≠ 0 then some (query.drop 1)
    else
      match query.drop n.toNat with
      | [] => none
      | m :: query => if m = 0 then some query else skipLoop fuel (m :: query)

@[inherit_doc skipLoop]
def skipName (query : List UInt8) : Option (List UInt8) := skipLoop query.length query

/-- The length byte and the place behind it, once a pointer is followed. -/
def follow (packet : List UInt8) (n : UInt8) (query : List UInt8) : Option (UInt8 × List UInt8) :=
  if n &&& 0xc0 ≠ 0 then
    match query with
    | [] => none
    | lo :: _ =>
      match packet.drop (lo.toNat + (n &&& 0x3f).toNat * 256) with
      | [] => none
      | n :: query => some (n, query)
  else some (n, query)

/-- What the inner loop of `decode_name` comes to. -/
inductive Copied
  | outside
  | full (dest : List UInt8)
  | copied (len : Nat) (query dest : List UInt8)

/-- The inner loop of `decode_name`. -/
def copyLabel : Nat → Nat → List UInt8 → List UInt8 → Copied
  | 0, len, query, dest => .copied len query dest
  | _ + 1, _, [], _ => .outside
  | n + 1, len, c :: query, dest =>
    if len - 1 = 0 then .full (dest ++ [c]) else copyLabel n (len - 1) query (dest ++ [c])

/-- The loop of `decode_name`. Each round but the last copies a byte, so that `len` bounds them. -/
def decodeLoop (packet : List UInt8) :
    Nat → Nat → UInt8 → List UInt8 → List UInt8 → Option (Bool × List UInt8)
  | 0, _, _, _, _ => none
  | fuel + 1, len, n, query, dest =>
    if len = 0 ∨ n = 0 then some (decide (len ≠ 0), dest)
    else
      match follow packet n query with
      | none => none
      | some (n, query) =>
        if n = 0 then some (decide (len ≠ 0), dest)
        else
          match copyLabel n.toNat len query dest with
          | .outside => none
          | .full dest => some (false, dest)
          | .copied _ [] _ => none
          | .copied len (m :: query) dest =>
            if m = 0 then decodeLoop packet fuel len m query dest
            else decodeLoop packet fuel (len - 1) m query (dest ++ [dot])

/-- `decode_name`: what it returns and the text in `dest`. -/
def decodeName (packet : List UInt8) : List UInt8 → Option (Bool × List UInt8)
  | [] => none
  | n :: query => decodeLoop packet (maxDomainNameSize + 1) maxDomainNameSize n query []

/-- What the inner loop of `dns_name_isequal` comes to. -/
inductive Compared
  | outside
  | differs
  | equal (query name : List UInt8)

/-- The inner loop of `dns_name_isequal`. -/
def compareLabel : Nat → List UInt8 → List UInt8 → Compared
  | 0, queryptr, name => .equal queryptr name
  | _ + 1, _, [] => .differs
  | _ + 1, [], _ :: _ => .outside
  | n + 1, q :: queryptr, c :: name =>
    if tolower c ≠ tolower q then .differs else compareLabel n queryptr name

/-- The name behind a dot at its start. -/
def dropDot : List UInt8 → List UInt8
  | [] => []
  | c :: name => if c = dot then name else c :: name

/-- The loop of `dns_name_isequal`. Each round but the last two takes a byte of the name. -/
def isequalLoop (packet : List UInt8) : Nat → UInt8 → List UInt8 → List UInt8 → Option Bool
  | 0, _, _, _ => none
  | fuel + 1, n, queryptr, name =>
    if n = 0 then some (decide (dropDot name = []))
    else
      match follow packet n queryptr with
      | none => none
      | some (n, queryptr) =>
        match compareLabel n.toNat queryptr name with
        | .outside => none
        | .differs => some false
        | .equal [] _ => none
        | .equal (m :: queryptr) name =>
          if m = 0 then isequalLoop packet fuel m queryptr name
          else
            match name with
            | [] => some false
            | c :: name => if c ≠ dot then some false else isequalLoop packet fuel m queryptr name

/-- `dns_name_isequal` -/
def dnsNameIsequal (packet : List UInt8) : List UInt8 → List UInt8 → Option Bool
  | [], _ => none
  | n :: queryptr, name =>
    if name = [] then some false else isequalLoop packet (name.length + 2) n queryptr name

/-! ### What is asked -/

/-- The labels with dots between them. -/
def text : List (List UInt8) → List UInt8
  | [] => []
  | [l] => l
  | l :: ls => l ++ dot :: text ls

/-- A host name by its labels. -/
structure HostName (ls : List (List UInt8)) : Prop where
  nonempty : ls ≠ []
  label : ∀ l ∈ ls, l ≠ [] ∧ l.length ≤ 63
  char : ∀ l ∈ ls, ∀ c ∈ l, c ≠ dot ∧ c ≠ 0
  length : (text ls).length < maxDomainNameSize

/-- How a name is encoded: a pointer stands for the encoding that it leads to. -/
inductive Encoding
  | zero
  | label (l : List UInt8) (rest : Encoding)
  | pointer (offset : Nat) (target : Encoding)

namespace Encoding

/-- The labels that an encoding stands for. -/
def labels : Encoding → List (List UInt8)
  | zero => []
  | label l rest => l :: rest.labels
  | pointer _ target => target.labels

/-- The bytes of an encoding in its place. -/
def bytes : Encoding → List UInt8
  | zero => [0]
  | label l rest => UInt8.ofNat l.length :: (l ++ rest.bytes)
  | pointer offset _ => [0xc0 ||| UInt8.ofNat (offset / 256), UInt8.ofNat offset]

/-- What the pointers stand for is in the packet at their offsets. -/
def InPacket (packet : List UInt8) : Encoding → Prop
  | zero => True
  | label _ rest => rest.InPacket packet
  | pointer offset target =>
    offset < 2 ^ 14 ∧ target.bytes <+: packet.drop offset ∧ target.InPacket packet

/-- An encoding starts with a label. -/
def IsLabel : Encoding → Prop
  | label _ _ => True
  | _ => False

/-- No pointer leads to a zero byte or to another pointer. -/
def PointsAtLabels : Encoding → Prop
  | zero => True
  | label _ rest => rest.PointsAtLabels
  | pointer _ target => target.IsLabel ∧ target.PointsAtLabels

/-- The encoding without pointers. -/
def plain (ls : List (List UInt8)) : Encoding := ls.foldr label zero

end Encoding

/-- `name` is `t` but for the case of letters and one dot at the end. -/
def SameName (name t : List UInt8) : Prop :=
  name.map tolower = t.map tolower ∨ name.map tolower = t.map tolower ++ [dot]

instance (name t : List UInt8) : Decidable (SameName name t) :=
  inferInstanceAs (Decidable (_ ∨ _))

/-- The functions read the encoded name at `query` as `t`, and it ends before `rest`. -/
structure Conforms (packet query t rest : List UInt8) : Prop where
  skip : skipName query = some rest
  decode : decodeName packet query = some (true, t)
  isequal : ∀ name, dnsNameIsequal packet query name = some (decide (SameName name t))

end Calipso.Resolv
