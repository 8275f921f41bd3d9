import Blockad.Model.Execute
import Mathlib.Logic.Function.Basic

/-!
# `Blockad.Model.Subprocess`: both sides of the pipe of `execute`

`Blockad.Model.Execute` is the parent alone, with the answers of its system calls given. Here the
answers come about: the parent, the child, and the processes that the command starts, take steps
in any order, and a pipe is between them.

The child first runs the code of `execute`, and then the command if `execvp` succeeds. Each of its
calls may fail. The command is not part of the repository, so a `Behaviour` can be anything that
comes to an end. The parent starts after its `fork`, and no call of it fails except with `EINTR`.
-/

set_option autoImplicit false

namespace Blockad

open Bytes

/-! ### Descriptors -/

/-- What a descriptor is about. -/
inductive Object where
  | readEnd
  | writeEnd
  /-- Anything but the pipe. -/
  | other
  deriving DecidableEq, Repr

/-- The open descriptors of a process. -/
abbrev Descriptors := Nat → Option Object

namespace Descriptors

/-- `close`. -/
def close (t : Descriptors) (fd : Nat) : Descriptors := Function.update t fd none

/-- `dup2`, for the object of the old descriptor. -/
def dup2 (t : Descriptors) (o : Object) (new : Nat) : Descriptors :=
  Function.update t new (some o)

/-- The process has the object open. -/
def Holds (t : Descriptors) (o : Object) : Prop := ∃ fd, t fd = some o

end Descriptors

/-! ### Processes -/

/-- What a process does. A call that may fail has two continuations. -/
inductive Behaviour where
  /-- The end, with the status for `waitpid`. -/
  | exit (ws : Int)
  | dup2 (old new : Nat) (failed next : Behaviour)
  | close (fd : Nat) (failed next : Behaviour)
  /-- A call that is not about descriptors. -/
  | call (failed next : Behaviour)
  | execvp (failed image : Behaviour)
  /-- All of `text`, in one `write` or several. -/
  | write (fd : Nat) (text : Bytes) (next : Behaviour)
  | fork (child next : Behaviour)

/-- A process. `image` are the descriptors that its program was executed with. -/
structure Process where
  fds : Descriptors
  image : Option Descriptors
  todo : Behaviour

/-- What one step of a process does. -/
structure Effect where
  /-- The bytes that go to the pipe. -/
  wrote : Bytes
  started : List Process
  /-- The process after it, or the status of a process that ended. -/
  outcome : Except Int Process

/-- The process goes on, and nothing else happens. -/
def Process.goesOn (p : Process) : Effect := ⟨[], [], .ok p⟩

/-- The status of a process that `SIGPIPE` ended. -/
def sigpipe : Int := 13

/-- The steps of a process, when the pipe has this much room, and has a reader or not. -/
inductive Acts (room : Nat) (reader : Prop) : Process → Effect → Prop where
  | exited {p : Process} {ws : Int} (htodo : p.todo = .exit ws) :
      Acts room reader p ⟨[], [], .error ws⟩
  | dup2 {p : Process} {old new : Nat} {failed next : Behaviour} {o : Object}
      (htodo : p.todo = .dup2 old new failed next) (hold : p.fds old = some o) :
      Acts room reader p { p with fds := p.fds.dup2 o new, todo := next }.goesOn
  | dup2Failed {p : Process} {old new : Nat} {failed next : Behaviour}
      (htodo : p.todo = .dup2 old new failed next) :
      Acts room reader p { p with todo := failed }.goesOn
  | closed {p : Process} {fd : Nat} {failed next : Behaviour}
      (htodo : p.todo = .close fd failed next) (hfd : p.fds fd ≠ none) :
      Acts room reader p { p with fds := p.fds.close fd, todo := next }.goesOn
  | closeFailed {p : Process} {fd : Nat} {failed next : Behaviour}
      (htodo : p.todo = .close fd failed next) :
      Acts room reader p { p with todo := failed }.goesOn
  | called {p : Process} {failed next : Behaviour} (htodo : p.todo = .call failed next) :
      Acts room reader p { p with todo := next }.goesOn
  | callFailed {p : Process} {failed next : Behaviour} (htodo : p.todo = .call failed next) :
      Acts room reader p { p with todo := failed }.goesOn
  -- A later program of the process is part of the command.
  | executed {p : Process} {failed image : Behaviour} (htodo : p.todo = .execvp failed image) :
      Acts room reader p { p with image := p.image.or (some p.fds), todo := image }.goesOn
  | execvpFailed {p : Process} {failed image : Behaviour}
      (htodo : p.todo = .execvp failed image) :
      Acts room reader p { p with todo := failed }.goesOn
  -- A `write` waits while there is no room.
  | wrote {p : Process} {fd n : Nat} {text : Bytes} {next : Behaviour}
      (htodo : p.todo = .write fd text next) (hfd : p.fds fd = some .writeEnd) (hreader : reader)
      (hpos : 0 < n) (hle : n ≤ text.length) (hroom : n ≤ room) :
      Acts room reader p ⟨text.take n, [], .ok { p with todo := .write fd (text.drop n) next }⟩
  | wroteAll {p : Process} {fd : Nat} {next : Behaviour} (htodo : p.todo = .write fd [] next) :
      Acts room reader p { p with todo := next }.goesOn
  | wroteElsewhere {p : Process} {fd : Nat} {text : Bytes} {next : Behaviour}
      (htodo : p.todo = .write fd text next) (hfd : p.fds fd ≠ some .writeEnd) :
      Acts room reader p { p with todo := next }.goesOn
  | killed {p : Process} {fd : Nat} {text : Bytes} {next : Behaviour}
      (htodo : p.todo = .write fd text next) (hfd : p.fds fd = some .writeEnd)
      (hreader : ¬ reader) (htext : text ≠ []) : Acts room reader p ⟨[], [], .error sigpipe⟩
  | forked {p : Process} {child next : Behaviour} (htodo : p.todo = .fork child next) :
      Acts room reader p ⟨[], [⟨p.fds, p.image, child⟩], .ok { p with todo := next }⟩

/-! ### The child -/

/-- What `execute` was called with, and what `pipe` and `fork` answered. The command is what the
program does, and `maskErrno` and `execErrno` are for calls of the child that fail. -/
structure Forked where
  argv0 : Bytes
  command : Behaviour
  p0 : Nat
  p1 : Nat
  capacity : Nat
  pid : Pid
  maskErrno : Errno
  execErrno : Errno

namespace Forked

/-- `_Exit(-1)`. -/
def exitFailed : Behaviour := .exit 0xFF00

variable [Libc] (f : Forked)

/-- Execute the program. -/
def execProgram : Behaviour :=
  .execvp (.write 2 (lit "executing " ++ cstr f.argv0 ++ colonStrerror f.execErrno ++ [nl])
    exitFailed) f.command

/-- Restore signal mask. -/
def restoreMask : Behaviour :=
  .call (.write 2 (lit "sigprocmask" ++ colonStrerror f.maskErrno ++ [nl]) exitFailed)
    f.execProgram

/-- `close(p[0])`. -/
def closeP0 : Behaviour := .close f.p0 exitFailed f.restoreMask

/-- `close(p[1])`. -/
def closeP1 : Behaviour := .close f.p1 exitFailed f.closeP0

/-- `dup2(p[1], 2)`. -/
def dupErr : Behaviour := .dup2 f.p1 2 exitFailed f.closeP1

/-- What `execute` does in the child: plumb in pipe, and so on. -/
def child : Behaviour := .dup2 f.p1 1 exitFailed f.dupErr

end Forked

/-! ### The system -/

/-- Where the parent is. -/
inductive ExecutePoint where
  /-- After the `fork`. -/
  | forked
  /-- Capture output. -/
  | capturing
  | captured
  /-- Wait for subprocess. -/
  | waiting
  | returned (ws : Int)
  deriving DecidableEq, Repr

/-- The parent with its descriptors and its output, the other processes, and the pipe. `reads`
and `waits` are what the calls of the parent have answered, and `interrupts` how often they can
still be interrupted; `written` is all that went to the pipe. -/
structure Subprocess where
  point : ExecutePoint
  fds : Descriptors
  output : Bytes
  reads : List (Except Errno Bytes)
  waits : List (Except Errno (Nat × Int))
  interrupts : Nat
  /-- The child, or its status. -/
  child : Except Int Process
  /-- The processes that the command has started. -/
  others : List Process
  pipe : Bytes
  written : Bytes

/-- Who takes a step. -/
inductive Actor where
  | parent
  | child
  | other
  deriving DecidableEq, Repr

/-- `sizeof buffer`. -/
def Execute.bufferSize : Nat := 512

namespace Subprocess

/-- Some process has this end of the pipe open. -/
def Held (s : Subprocess) (o : Object) : Prop :=
  s.fds.Holds o ∨ (∃ p, s.child = .ok p ∧ p.fds.Holds o) ∨ ∃ p ∈ s.others, p.fds.Holds o

/-- The bytes that a process writes reach the pipe, and the processes that it starts are there. -/
def apply (s : Subprocess) (e : Effect) : Subprocess :=
  { s with
    pipe := s.pipe ++ e.wrote, written := s.written ++ e.wrote, others := s.others ++ e.started }

/-- The processes after a step of one of them. -/
def remaining (outcome : Except Int Process) : List Process :=
  match outcome with
  | .ok p => [p]
  | .error _ => []

/-- The steps, with those of the parent in the order of the source. -/
inductive Step (f : Forked) : Subprocess → Actor → Subprocess → Prop where
  | closedP1 {s : Subprocess} (hpoint : s.point = .forked) :
      Step f s .parent { s with point := .capturing, fds := s.fds.close f.p1 }
  -- What `read` returns is not always all there is.
  | read {s : Subprocess} {n : Nat} (hpoint : s.point = .capturing) (hpos : 0 < n)
      (hle : n ≤ s.pipe.length) (hsize : n ≤ Execute.bufferSize) :
      Step f s .parent { s with
        output := s.output ++ s.pipe.take n, pipe := s.pipe.drop n,
        reads := s.reads ++ [.ok (s.pipe.take n)] }
  -- The end of the file is where nobody can write any more.
  | readEnd {s : Subprocess} (hpoint : s.point = .capturing) (hpipe : s.pipe = [])
      (hwriter : ¬ s.Held .writeEnd) :
      Step f s .parent { s with point := .captured, reads := s.reads ++ [.ok []] }
  | readInterrupted {s : Subprocess} {n : Nat} (hpoint : s.point = .capturing)
      (hinterrupts : s.interrupts = n + 1) :
      Step f s .parent { s with interrupts := n, reads := s.reads ++ [.error .EINTR] }
  | closedP0 {s : Subprocess} (hpoint : s.point = .captured) :
      Step f s .parent { s with point := .waiting, fds := s.fds.close f.p0 }
  | reaped {s : Subprocess} {ws : Int} (hpoint : s.point = .waiting)
      (hchild : s.child = .error ws) :
      Step f s .parent { s with
        point := .returned ws, waits := s.waits ++ [.ok (f.pid.val, ws)] }
  | waitInterrupted {s : Subprocess} {n : Nat} (hpoint : s.point = .waiting)
      (hinterrupts : s.interrupts = n + 1) :
      Step f s .parent { s with interrupts := n, waits := s.waits ++ [.error .EINTR] }
  | child {s : Subprocess} {p : Process} {e : Effect} (hchild : s.child = .ok p)
      (hacts : Acts (f.capacity - s.pipe.length) (s.Held .readEnd) p e) :
      Step f s .child { s.apply e with child := e.outcome }
  | other {s : Subprocess} {before after : List Process} {p : Process} {e : Effect}
      (hothers : s.others = before ++ p :: after)
      (hacts : Acts (f.capacity - s.pipe.length) (s.Held .readEnd) p e) :
      Step f s .other
        { s.apply e with others := before ++ remaining e.outcome ++ after ++ e.started }

/-- After the `fork`. Apart from the new pipe, the descriptors can be anything. -/
structure Started [Libc] (f : Forked) (s : Subprocess) : Prop where
  point : s.point = .forked
  readEnd : ∀ fd, s.fds fd = some .readEnd ↔ fd = f.p0
  writeEnd : ∀ fd, s.fds fd = some .writeEnd ↔ fd = f.p1
  output : s.output = []
  reads : s.reads = []
  waits : s.waits = []
  child : s.child = .ok ⟨s.fds, none, f.child⟩
  others : s.others = []
  pipe : s.pipe = []
  written : s.written = []

/-- What the system calls of the parent have answered. -/
def answers (f : Forked) (s : Subprocess) (turns : Nat) : Outcomes where
  pipe := .ok (f.p0, f.p1)
  fork := .ok f.pid
  closes _ := .ok ()
  reads := s.reads
  waits := s.waits
  turns := turns

end Subprocess

end Blockad
