import Blockad.Model.Libc
import Mathlib.Data.List.DropRight

/-!
# `Blockad.Model.Regex`: `Regex.cc` and `Regex_.h`

The wrapper around the POSIX functions, as a value: a compiled pattern and its flags. A
`Regex` that `compile` has not filled holds no pattern, and no caller uses one.
-/

set_option autoImplicit false

namespace Blockad

open Bytes

variable [Libc]

/-- `REG_EXTENDED`. -/
def regExtended : UInt32 := 1

/-- `Regex`, once compiled. -/
structure Regex where
  preg : Libc.Preg
  cflags : UInt32

namespace Regex

/-- `Regex::default_nmatches`. -/
def defaultNmatches : Nat := 64

/-- `Regex::compile`. -/
def compile (regex : Bytes) (cflags : UInt32 := 0) (basic : Bool := false) : Except Exn Regex :=
  let cflags := if basic then cflags else cflags ||| regExtended
  match Libc.regcomp (cstr regex) cflags with
  | .error text => .error (.compilationError text)
  | .ok preg => .ok ⟨preg, cflags⟩

/-- `Regex::captures`. -/
def captures (r : Regex) : Nat := Libc.reNsub r.preg

/-- The loop that strips the unused entries at the end of the table. -/
def stripUnused (ms : List RegMatch) : List RegMatch := ms.rdropWhile fun m => m.rmSo == -1

/-- `Regex::execute`: the stripped table, or `none` for a nonzero result. -/
def execute (r : Regex) (s : Bytes) (eflags : UInt32 := 0) (nmatch : Nat := defaultNmatches) :
    Option (List RegMatch) :=
  (regexec r.preg (cstr s) nmatch eflags).map stripUnused

end Regex

end Blockad
