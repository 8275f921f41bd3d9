import Blockad.Lib.Strtol
import Mathlib.Data.List.Basic

/-!
# `Blockad.Model.Libc`: what the sources take from the C library

The C library functions that parse addresses and match regular expressions are not part
of the repository. `Libc` is their interface: the model and its theorems hold for every
implementation of it. `regexec` is the documented behavior of `regexec(3)` over the groups
that a match reports: entry `i` of the table is the span of group `i`, or `-1`/`-1` when
the group took no part in the match or does not exist.

`Errno` and `Exn` are the error values of the whole program. `Exn.isRuntimeError` is the
class test of the `catch(std::runtime_error &)` handlers: `std::out_of_range` is a
`std::logic_error`, and no handler catches it.
-/

set_option autoImplicit false

namespace Blockad

/-- The `errno` values that the sources compare with, and all the others. -/
inductive Errno where
  | ENOENT
  | EINVAL
  | EINTR
  | EAGAIN
  | ERANGE
  | other (n : Nat)
  deriving DecidableEq, Repr

/-- The exceptions of the sources. -/
inductive Exn where
  /-- `InvalidAddress`. -/
  | invalidAddress
  /-- `InvalidAddressPattern`, with the error it reports, if any. -/
  | invalidAddressPattern (why : Option Errno)
  /-- `Regex::CompilationError`, with the text of `regerror`. -/
  | compilationError (text : Bytes)
  /-- `ConfFile::SyntaxError`. -/
  | syntaxError (path : Bytes) (lineno : Nat) (message : Bytes)
  /-- `IOError`, with the file it is about, if any. -/
  | ioError (what : Bytes) (path : Option Bytes) (errno : Errno)
  /-- `SystemError`. -/
  | systemError (what : Bytes) (errno : Errno)
  /-- `Watcher::IOError`. -/
  | watcherIOError (what : Bytes) (errno : Errno)
  /-- `Watcher::SystemError`, with or without an `errno` value. -/
  | watcherSystemError (what : Bytes) (errno : Option Errno)
  /-- `std::out_of_range`. -/
  | outOfRange
  deriving DecidableEq, Repr

/-- A `std::runtime_error`. -/
def Exn.isRuntimeError : Exn → Bool
  | .outOfRange => false
  | _ => true

/-- Why a run of the program stops: an exception, or undefined behavior (an index past the
end of a vector). -/
inductive Halt where
  | thrown (e : Exn)
  | undefined
  deriving DecidableEq, Repr

/-- A span `[so, eo)` inside a string of length `n`. -/
structure Span (n : Nat) where
  so : Nat
  eo : Nat
  so_le_eo : so ≤ eo
  eo_le : eo ≤ n

/-- The C library. -/
class Libc where
  /-- `strerror`. -/
  strerror : Errno → Bytes
  /-- `inet_pton(AF_INET, …)`: the four bytes of a valid address. -/
  inetPton4 : Bytes → Option (Vector UInt8 4)
  /-- `inet_pton(AF_INET6, …)`: the sixteen bytes of a valid address. -/
  inetPton6 : Bytes → Option (Vector UInt8 16)
  /-- A compiled regular expression, `regex_t`. -/
  Preg : Type
  /-- `regcomp`: the compiled pattern, or the `regerror` text. -/
  regcomp : Bytes → (cflags : UInt32) → Except Bytes Preg
  /-- `re_nsub`, the number of groups of the pattern. -/
  reNsub : Preg → Nat
  /-- The match that `regexec` finds, as the span of each group that took part in it. -/
  groups : Preg → (s : Bytes) → (eflags : UInt32) → Option (Nat → Option (Span s.length))

/-- `regmatch_t`. -/
structure RegMatch where
  rmSo : Int
  rmEo : Int
  deriving DecidableEq, Repr

/-- The table entry of a group. -/
def RegMatch.ofGroup {n : Nat} : Option (Span n) → RegMatch
  | some span => ⟨span.so, span.eo⟩
  | none => ⟨-1, -1⟩

/-- `regexec`: the filled table of `nmatch` entries, or `none` for a nonzero result. -/
def regexec [Libc] (preg : Libc.Preg) (s : Bytes) (nmatch : Nat) (eflags : UInt32) :
    Option (List RegMatch) :=
  (Libc.groups preg s eflags).map fun group =>
    (List.range nmatch).map fun i => RegMatch.ofGroup (group i)

open Bytes

/-- `strerror` after a colon, as the exception texts append it. -/
def colonStrerror [Libc] (errno : Errno) : Bytes := lit ": " ++ Libc.strerror errno

/-- `what()` of an exception. -/
def Exn.what [Libc] : Exn → Bytes
  | .invalidAddress => lit "Invalid address"
  | .invalidAddressPattern none => lit "Invalid address pattern"
  | .invalidAddressPattern (some e) => lit "Invalid address pattern: " ++ Libc.strerror e
  | .compilationError text => text
  | .syntaxError path lineno message => path ++ lit ":" ++ ofNat lineno ++ lit ": " ++ message
  | .ioError what none e => what ++ colonStrerror e
  | .ioError what (some path) e => what ++ lit " " ++ path ++ colonStrerror e
  | .systemError what e => what ++ colonStrerror e
  | .watcherIOError what e => what ++ colonStrerror e
  | .watcherSystemError what none => what
  | .watcherSystemError what (some e) => what ++ colonStrerror e
  | .outOfRange => lit "basic_string"

/-! ### One implementation

A concrete library for runs on given inputs: the dotted-quad reader of `inet_pton`, and a
matcher that the user of the instance supplies. It knows no IPv6 text. -/

/-- One number of a dotted quad: one to three digits, no leading zero, at most 255. -/
def octet (ds : Bytes) : Option UInt8 :=
  let n := digitsValue ds
  if ds.all isDigit && !ds.isEmpty && ds.length ≤ 3 && n ≤ 255
      && (ds.length = 1 || ds.head? != some (chr '0')) then
    some (UInt8.ofNat n)
  else none

/-- The bytes of a dotted quad. -/
def dottedQuad (s : Bytes) : Option (Vector UInt8 4) :=
  match (s.splitOn (chr '.')).map octet with
  | [some a, some b, some c, some d] => some #v[a, b, c, d]
  | _ => none

/-- A library whose patterns all match as `groups` says, with `nsub` groups. -/
abbrev Libc.ofGroups (nsub : Nat)
    (groups : (s : Bytes) → Option (Nat → Option (Span s.length))) : Libc where
  strerror _ := lit "Numerical result out of range"
  inetPton4 := dottedQuad
  inetPton6 _ := none
  Preg := Unit
  regcomp _ _ := .ok ()
  reNsub _ := nsub
  groups _ s _ := groups s

/-- A library whose patterns match nothing. -/
abbrev Libc.noMatch : Libc := Libc.ofGroups 0 fun _ => none

end Blockad
