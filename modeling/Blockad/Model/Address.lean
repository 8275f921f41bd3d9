import Blockad.Model.Libc

/-!
# `Blockad.Model.Address`: `Address.cc` and `Address.h`

Every address is held as the sixteen bytes of an IPv6 address, an IPv4 one mapped into
`::ffff:0:0/96`. `AddressBase.convert` reads both syntaxes. An `AddressPattern` is a
network and a mask; the sources compare the masked address with the network as it was
written.
-/

set_option autoImplicit false

namespace Blockad

open Bytes

/-- `struct in6_addr`. -/
abbrev In6Addr := Vector UInt8 16

/-- The v4-mapped form of an IPv4 address. -/
def mapped4 (a : Vector UInt8 4) : In6Addr :=
  #v[0, 0, 0, 0, 0, 0, 0, 0, 0, 0, 0xFF, 0xFF, a[0], a[1], a[2], a[3]]

/-- `AddressBase::convert`: the address in `ss[pos, pos + n)`, and 4 or 6 for its syntax.
A length of `none` is `npos`. -/
def AddressBase.convert [Libc] (ss : Bytes) (pos : Nat) (n : Option Nat) :
    Except Exn (In6Addr × Int) :=
  -- `npos` is beyond every size, so that the rest of the string is taken
  let n := min (n.getD ss.length) (ss.length - pos)
  let s := (ss.drop pos).take n
  if s.contains (chr ':') then
    -- Looks like an IPv6 address
    match Libc.inetPton6 (cstr s) with
    | none => .error .invalidAddress
    | some addr => .ok (addr, 6)
  else
    -- Looks like an IPv4 address. Store it as a v4-mapped IPv6 address
    match Libc.inetPton4 (cstr s) with
    | none => .error .invalidAddress
    | some addr => .ok (mapped4 addr, 4)

/-- `Address`. -/
structure Address where
  address : In6Addr
  deriving DecidableEq, Repr

/-- `memcmp` on two byte strings of one length. -/
def memcmp (a b : List UInt8) : Ordering := List.compareLex compare a b

/-- The order of `Address::operator<`. -/
def Address.cmp (a b : Address) : Ordering := memcmp a.address.toList b.address.toList

/-- `Address::assign`. -/
def Address.assign [Libc] (s : Bytes) : Except Exn Address :=
  match AddressBase.convert s 0 none with
  | .error e => .error e
  | .ok (address, v) => if v < 0 then .error .invalidAddress else .ok ⟨address⟩

/-- `AddressPattern`. -/
structure AddressPattern where
  network : In6Addr
  mask : In6Addr
  deriving DecidableEq, Repr

/-- The netmask size of a pattern: the number after the slash, adjusted for a v4-mapped
address. `v` is the syntax of the address part. -/
def AddressPattern.maskBits (v : Int) (maskString : Bytes) : Except Exn Int :=
  let n := strtol maskString
  if n.erange then .error (.invalidAddressPattern (some .ERANGE))
  else if !n.converted || !n.rest.isEmpty || n.value < 0 then
    .error (.invalidAddressPattern none)
  else if v = 4 then
    -- The v4-mapped form has 96 bits before those of the address
    if n.value > 32 then .error (.invalidAddressPattern none) else .ok (n.value + 96)
  else
    if n.value > 128 then .error (.invalidAddressPattern none) else .ok n.value

/-- The mask with `maskBits` bits: the loop over its sixteen bytes. -/
def AddressPattern.maskOf (maskBits : Nat) : In6Addr :=
  Vector.ofFn fun n =>
    if n.val < maskBits / 8 then 0xFF
    -- The conversion to a byte drops what is shifted out of it
    else if n.val = maskBits / 8 then UInt8.ofNat (0xFF <<< (8 - maskBits % 8))
    else 0

/-- `AddressPattern::assign`. -/
def AddressPattern.assign [Libc] (s : Bytes) : Except Exn AddressPattern :=
  let slash := s.idxOf? (chr '/')
  match AddressBase.convert s 0 slash with
  | .error e => .error e
  | .ok (network, v) =>
    if v < 0 then .error (.invalidAddressPattern none)
    else match slash with
      -- Without a netmask, match the address exactly
      | none => .ok ⟨network, maskOf 128⟩
      | some slash =>
        match maskBits v (cstr (s.drop (slash + 1))) with
        | .error e => .error e
        | .ok n => .ok ⟨network, maskOf n.toNat⟩

/-- `AddressPattern::matches`. -/
def AddressPattern.matches (p : AddressPattern) (a : Address) : Bool :=
  (List.finRange 16).all fun n => a.address[n] &&& p.mask[n] == p.network[n]

end Blockad
