import Blockad.Lib.RefCount
import Blockad.Model.Regex

/-!
# `Blockad.Model.RegexHandles`: the reference counts of `Regex.cc`

The objects of class `Regex` are handles: each has a pointer `creg` to a `CompiledRegex`, which
the handles share and count. `Regexes` are all handles that were constructed, with the heap of
their compiled objects. An operation that uses a handle that was destroyed, or an object that was
deleted, has no result.

The other modules have the value of a handle only, as the programs use it.
`Blockad.Proofs.RegexValues` says what the one has to do with the other.
-/

set_option autoImplicit false

namespace Blockad

open Bytes RefCount

variable [Libc]

/-- `Regex::CompiledRegex`, without its `refcount`. A pattern is there once it is compiled. -/
structure CompiledRegex where
  cflags : UInt32
  reg : Option Libc.Preg

/-- The handles in the order of their construction, `none` after their destruction, and the
compiled objects. A pointer may be `NULL`. -/
structure Regexes where
  handles : List (Option (Option Nat))
  heap : RefCount.Heap CompiledRegex

/-- The operations on handles. -/
inductive RegexOp where
  /-- `Regex()`. -/
  | construct
  /-- `Regex(regex, cflags, basic)`. -/
  | fromPattern (regex : Bytes) (cflags : UInt32) (basic : Bool)
  /-- `Regex(that)`. -/
  | copy (that : Nat)
  /-- `operator=(that)`. -/
  | assign (this that : Nat)
  | compile (this : Nat) (regex : Bytes) (cflags : UInt32) (basic : Bool)
  /-- `~Regex()`. -/
  | destroy (this : Nat)

namespace Regexes

/-- No handles. -/
def start : Regexes := ⟨[], RefCount.Heap.empty⟩

/-- The range of `refcount`. -/
def intMin : Int := -0x80000000

/-- The range of `refcount`. -/
def intMax : Int := 0x7FFFFFFF

variable (s : Regexes)

/-- The pointer of a live handle. -/
def creg (this : Nat) : Option (Option Nat) := (s.handles)[this]?.join

/-- `if(creg) ++creg->refcount;`. -/
def acquire : (creg : Option Nat) → Option Regexes
  | none => some s
  | some id => do
    let heap ← s.heap.increment intMax id
    return { s with heap }

/-- `if(creg && --creg->refcount …) delete creg;`, with the test of the new count. -/
def drop (test : Int → Bool) : (creg : Option Nat) → Option Regexes
  | none => some s
  | some id => do
    let heap ← s.heap.release intMin test id
    return { s with heap }

/-- A new value for `creg`. -/
def point (this : Nat) (creg : Option Nat) : Regexes :=
  { s with handles := s.handles.set this (some creg) }

/-- `Regex::compile`, with the exception that it throws. -/
def compile (this : Nat) (regex : Bytes) (cflags : UInt32) (basic : Bool) :
    Option (Regexes × Option Exn) := do
  let creg ← s.creg this
  let s ← s.drop (fun refcount => refcount != 0) creg
  let cflags := if basic then cflags else cflags ||| regExtended
  let s' := s.point this (some s.heap.cells.length)
  match Libc.regcomp (cstr regex) cflags with
  | .error text =>
    return ({ s' with heap := s.heap.alloc ⟨cflags, none⟩ }, some (.compilationError text))
  | .ok preg => return ({ s' with heap := s.heap.alloc ⟨cflags, some preg⟩ }, none)

/-- One operation. -/
def step : RegexOp → Option (Regexes × Option Exn)
  | .construct => some ({ s with handles := s.handles ++ [some none] }, none)
  | .fromPattern regex cflags basic => do
    let (s', e) ← compile { s with handles := s.handles ++ [some none] } s.handles.length regex
      cflags basic
    match e with
    | none => return (s', none)
    -- There is no object when the constructor throws
    | some e => return ({ s' with handles := s.handles ++ [none] }, some e)
  | .copy that => do
    let creg ← s.creg that
    let s ← s.acquire creg
    return ({ s with handles := s.handles ++ [some creg] }, none)
  | .assign this that => do
    let old ← s.creg this
    let creg ← s.creg that
    if this ≠ that then
      let s ← s.drop (fun refcount => refcount == 0) old
      let s ← (s.point this creg).acquire creg
      return (s, none)
    else return (s, none)
  | .compile this regex cflags basic => s.compile this regex cflags basic
  | .destroy this => do
    let creg ← s.creg this
    let s ← s.drop (fun refcount => refcount == 0) creg
    return ({ s with handles := s.handles.set this none }, none)

end Regexes

end Blockad
