import Blockad.Model.Address

/-!
# `Blockad.Model.AddressText`: the texts of an address

`Address.cc` prints an address with `inet_ntop`, as an IPv4 or as an IPv6 address by its first
twelve bytes. `InetNtop` is the interface to this function, and `LawfulNtop` what its
documentation says: `inet_pton` reads its texts back, and which characters they have.
-/

set_option autoImplicit false

namespace Blockad

open Bytes

/-- `inet_ntop`. -/
class InetNtop where
  /-- `inet_ntop(AF_INET, …)`. -/
  inetNtop4 : Vector UInt8 4 → Bytes
  /-- `inet_ntop(AF_INET6, …)`. -/
  inetNtop6 : Vector UInt8 16 → Bytes

/-- The lower-case digits of base 16. -/
def isLowerHex (c : UInt8) : Bool := isDigit c || (chr 'a' ≤ c && c ≤ chr 'f')

/-- The documentation of `inet_ntop`. -/
structure LawfulNtop [Libc] [InetNtop] : Prop where
  pton_ntop4 : ∀ x, Libc.inetPton4 (InetNtop.inetNtop4 x) = some x
  pton_ntop6 : ∀ x, Libc.inetPton6 (InetNtop.inetNtop6 x) = some x
  ntop4_chars : ∀ x, ∀ c ∈ InetNtop.inetNtop4 x, isDigit c = true ∨ c = chr '.'
  ntop6_chars : ∀ x, ∀ c ∈ InetNtop.inetNtop6 x,
    isLowerHex c = true ∨ c = chr '.' ∨ c = chr ':'
  ntop6_colon : ∀ x, chr ':' ∈ InetNtop.inetNtop6 x

namespace Address

/-- `Address::is4`. -/
def is4 (a : Address) : Bool :=
  ((List.finRange 10).all fun n => a.address[n] == 0) &&
    a.address[10] == 0xFF && a.address[11] == 0xFF

variable [InetNtop]

/-- `Address::as4`. -/
def as4 (a : Address) : Except Exn Bytes :=
  if !a.is4 then .error .invalidAddress
  else .ok (InetNtop.inetNtop4 #v[a.address[12], a.address[13], a.address[14], a.address[15]])

/-- `Address::as6`. -/
def as6 (a : Address) : Bytes := InetNtop.inetNtop6 a.address

/-- `Address::asString`. -/
def asString (a : Address) : Except Exn Bytes := if a.is4 then a.as4 else .ok a.as6

end Address

/-! ### One implementation

A concrete library for given inputs. It prints an IPv6 address with all of its digits, as
`inet_ntop` does where no group has a leading zero, and reads such texts. -/

/-- A digit, in base 10 or 16. -/
def digit (n : Nat) : UInt8 := UInt8.ofNat (if n < 10 then 48 + n else 87 + n)

/-- The value of a lower-case digit. -/
def digitValue (c : UInt8) : Option Nat :=
  if isDigit c then some (c.toNat - 48)
  else if chr 'a' ≤ c && c ≤ chr 'f' then some (c.toNat - 87)
  else none

/-- A number of a dotted quad. -/
def octetText (c : UInt8) : Bytes :=
  (if 100 ≤ c.toNat then [digit (c.toNat / 100)] else []) ++
    (if 10 ≤ c.toNat then [digit (c.toNat / 10 % 10)] else []) ++ [digit (c.toNat % 10)]

/-- A dotted quad. -/
def quadText (x : Vector UInt8 4) : Bytes := [chr '.'].intercalate (x.toList.map octetText)

/-- Two digits of base 16. -/
def hexText (c : UInt8) : Bytes := [digit (c.toNat / 16), digit (c.toNat % 16)]

/-- The eight groups of an address. -/
def groupsText (x : Vector UInt8 16) : Bytes :=
  [chr ':'].intercalate [hexText x[0] ++ hexText x[1], hexText x[2] ++ hexText x[3],
    hexText x[4] ++ hexText x[5], hexText x[6] ++ hexText x[7], hexText x[8] ++ hexText x[9],
    hexText x[10] ++ hexText x[11], hexText x[12] ++ hexText x[13], hexText x[14] ++ hexText x[15]]

/-- The byte of two digits. -/
def hexByte (high low : UInt8) : Option UInt8 := do
  return UInt8.ofNat (16 * (← digitValue high) + (← digitValue low))

/-- The two bytes of a group. -/
def group : Bytes → Option (UInt8 × UInt8)
  | [a, b, c, d] => do return (← hexByte a b, ← hexByte c d)
  | _ => none

/-- The bytes of eight groups. -/
def fullGroups (s : Bytes) : Option (Vector UInt8 16) :=
  match (s.splitOn (chr ':')).map group with
  | [some a, some b, some c, some d, some e, some f, some g, some h] =>
    some #v[a.1, a.2, b.1, b.2, c.1, c.2, d.1, d.2, e.1, e.2, f.1, f.2, g.1, g.2, h.1, h.2]
  | _ => none

/-- A library that also reads full IPv6 addresses. -/
abbrev Libc.withGroups : Libc := { Libc.noMatch with inetPton6 := fullGroups }

/-- The printer for this library. -/
abbrev InetNtop.withGroups : InetNtop := ⟨quadText, groupsText⟩

end Blockad
