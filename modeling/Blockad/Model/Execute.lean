import Blockad.Lib.Loop
import Blockad.Lib.Sizes
import Blockad.Model.Libc

/-!
# `Blockad.Model.Execute`: `execute.cc` and the log

`execute` runs a command, with its output captured in a pipe, and waits for it. The model is what
the parent does. An `Outcomes` is what its system calls would answer, in order; a loop that uses
up its answers is still `running`, and so is the loop over the output after its last turn. The
state keeps the local variables that the `catch(...)` handler looks at, and also the calls that
were made and the lines that were logged, which the program does not look at.

The child either becomes the command or exits, so it is only in the model as the arguments of
`fork`.
-/

set_option autoImplicit false

namespace Blockad

open Bytes Loop Sizes

/-! ### The log -/

/-- The priorities of `log.h`. -/
inductive Priority where
  | debug
  | info
  | warning
  | error
  deriving DecidableEq, Repr

/-- A line of the log. -/
structure LogLine where
  priority : Priority
  text : Bytes
  deriving DecidableEq, Repr

/-! ### What the kernel does -/

/-- The process id that `fork` returns in the parent. -/
abbrev Pid := { pid : Nat // 0 < pid }

/-- A system call of `execute`, with its result. That of the last one is ignored. -/
inductive SysCall where
  | pipe (result : Except Errno (Nat × Nat))
  /-- `fork`, with what the child executes. -/
  | fork (argv : List Bytes) (result : Except Errno Pid)
  | close (fd : Int) (result : Except Errno Unit)
  | read (fd : Int) (result : Except Errno Bytes)
  | waitpid (pid : Int) (result : Except Errno (Nat × Int))
  /-- `waitpid(pid, NULL, WNOHANG)`. -/
  | waitpidNoHang (pid : Int)

/-- What the system calls answer. An empty `read` is the end of the file. -/
structure Outcomes where
  pipe : Except Errno (Nat × Nat)
  fork : Except Errno Pid
  closes : Nat → Except Errno Unit
  reads : List (Except Errno Bytes)
  waits : List (Except Errno (Nat × Int))
  /-- How far the loop over the output is followed. -/
  turns : Nat

/-- How `execute` ends without a result. -/
inductive Stop where
  | thrown (e : Exn)
  /-- A failed `assert`. -/
  | aborted
  /-- It has not ended. -/
  | running
  deriving DecidableEq, Repr

/-- The state of `execute`. `closes` are the answers that `close` still has. -/
structure Exec where
  p0 : Int
  p1 : Int
  pid : Int
  closes : Nat → Except Errno Unit
  calls : List SysCall
  log : List LogLine

/-- The state before `execute`. -/
def Exec.start (o : Outcomes) : Exec := ⟨-1, -1, -1, o.closes, [], []⟩

namespace Execute

/-- A part of `execute`. -/
abbrev Prog := EStateM Stop Exec

/-- A call was made. -/
def record (call : SysCall) : Prog Unit := modify fun s => { s with calls := s.calls ++ [call] }

/-- A line is logged. -/
def log (line : LogLine) : Prog Unit := modify fun s => { s with log := s.log ++ [line] }

/-- `close`. -/
def close (fd : Int) : Prog (Except Errno Unit) := do
  let result := (← get).closes 0
  modify fun s => { s with closes := fun n => s.closes (n + 1) }
  record (.close fd result)
  return result

/-! ### The parts of `execute` -/

variable (o : Outcomes)

/-- The descriptors `p`. -/
def createPipe : Prog Unit := do
  record (.pipe o.pipe)
  match o.pipe with
  | .error errno => throw (.thrown (.ioError (lit "creating pipe") none errno))
  | .ok (p0, p1) => modify fun s => { s with p0, p1 }

/-- The subprocess. -/
def createSubprocess (argv : List Bytes) : Prog Unit := do
  record (.fork argv o.fork)
  match o.fork with
  | .error errno => throw (.thrown (.systemError (lit "creating subprocess") errno))
  | .ok pid => modify fun s => { s with pid := pid.val }

/-- The close of the end that the child has. -/
def closeWriteEnd : Prog Unit := do
  match ← close (← get).p1 with
  | .error errno => throw (.thrown (.ioError (lit "closing read end of pipe") none errno))
  | .ok () => modify fun s => { s with p1 := -1 }

/-- The loop that captures the output. -/
def capture (output : Bytes) : List (Except Errno Bytes) → Prog Bytes
  | [] => throw .running
  | result :: reads => do
    record (.read (← get).p0 result)
    match result with
    | .error errno =>
      if errno ≠ .EINTR then throw (.thrown (.ioError (lit "reading from pipe") none errno))
      else capture output reads
    | .ok bytes => if bytes.isEmpty then pure output else capture (output ++ bytes) reads

/-- The close of the other end. -/
def closeReadEnd : Prog Unit := do
  let _ ← close (← get).p0
  modify fun s => { s with p0 := -1 }

/-- The loop that waits for the subprocess. -/
def wait : List (Except Errno (Nat × Int)) → Prog Int
  | [] => throw .running
  | result :: waits => do
    let pid := (← get).pid
    record (.waitpid pid result)
    match result with
    | .error errno =>
      if errno ≠ .EINTR then
        throw (.thrown (.systemError (lit "waiting for subprocess") errno))
      else wait waits
    | .ok (rpid, ws) => if (rpid : Int) = pid then pure ws else wait waits

/-! ### The dump of the output -/

/-- The output with a final newline. -/
def complete (output : Bytes) : Bytes :=
  if !output.isEmpty && output.getLast? != some nl then output ++ [nl] else output

/-- `std::string::find`, with `none` for `npos`. -/
def find (s : Bytes) (c : UInt8) (pos : Nat) : Option Nat :=
  ((s.drop pos).idxOf? c).map (pos + ·)

/-- The variables of the loop over the output: `pos`, and what the lines go to. -/
structure Dump (σ : Type) where
  pos : Nat
  state : σ

/-- One turn of the loop over the output. -/
def dumpTurn {σ : Type} (output : Bytes) (select : (pos : Nat) → (nl : Option Nat) → σ → σ)
    (d : Dump σ) : Turn (Dump σ) σ :=
  if d.pos < output.length then
    match find output nl d.pos with
    | some nl => .next { pos := nl + 1, state := select d.pos (some nl) d.state }
    -- The number after `npos` is zero
    | none => .next { pos := 0, state := select d.pos none d.state }
  else .done d.state

/-- `npos`. -/
def npos : Nat := 0xFFFFFFFFFFFFFFFF

/-- What `%.*s` takes from a string. A negative precision is like none. -/
def precisionText (precision : Int) (s : Bytes) : Bytes :=
  cstr (if precision < 0 then s else s.take precision.toNat)

/-- The log line for what one turn selects. -/
def outputLine (argv0 output : Bytes) (pos : Nat) (nl : Option Nat) : LogLine :=
  ⟨.info, argv0 ++ lit ": " ++
    precisionText (toInt (subSize (nl.getD npos) pos)) (output.drop pos)⟩

/-- What one turn does with the line that it selects. -/
def selectLine (argv0 output : Bytes) (pos : Nat) (nl : Option Nat) (log : List LogLine) :
    List LogLine :=
  log ++ [outputLine argv0 output pos nl]

/-- The loop over the output. -/
def dump (argv0 output : Bytes) : Prog Unit := fun s =>
  match run (dumpTurn output (selectLine argv0 output)) o.turns ⟨0, s.log⟩ with
  | none => .error .running s
  | some log => .ok () { s with log }

/-- The digits of `%#x`, for a value that is not zero. -/
def hex (n : Int) : Bytes :=
  lit "0x" ++ (Nat.toDigits 16 (n % 0x100000000).toNat).map chr

/-- The last line for a command that failed. -/
def statusLine (argv0 : Bytes) (ws : Int) : LogLine :=
  ⟨.error, argv0 ++ lit " exited with status " ++ hex ws⟩

/-- The report on a command that failed. -/
def report (argv0 output : Bytes) (ws : Int) : Prog Unit := do
  dump o argv0 (complete output)
  log (statusLine argv0 ws)

/-! ### `execute` -/

/-- The first line for the log. -/
def debugLine (argv : List Bytes) : LogLine :=
  ⟨.debug, lit "execute: " ++ (lit " ").intercalate argv⟩

/-- The body of `try`. -/
def body (debugging : Bool) (argv0 : Bytes) (argv : List Bytes) : Prog Int := do
  if debugging then
    log (debugLine argv)
  createPipe o
  createSubprocess o argv
  closeWriteEnd
  -- Capture output
  let output ← capture [] o.reads
  closeReadEnd
  -- Wait for subprocess
  let ws ← wait o.waits
  if ws ≠ 0 then
    report o argv0 output ws
  return ws

/-- `close` of a descriptor that may be stray. -/
def closeStray (p : Exec → Int) : Prog Unit := do
  let fd := p (← get)
  if fd ≠ -1 then
    let _ ← close fd

/-- `waitpid` for a child that may be there. -/
def reap : Prog Unit := do
  let pid := (← get).pid
  if pid ≠ -1 then
    record (.waitpidNoHang pid)

/-- The `catch(...)` handler, up to its `throw`. -/
def cleanup : Prog Unit := do
  closeStray Exec.p0
  closeStray Exec.p1
  -- Reap if possible, but don't wait indefinitely
  reap

/-- `try { … } catch(...) { …; throw; }`. -/
def tryCatch {β : Type} (body : Prog β) (handler : Prog Unit) : Prog β := fun s =>
  match body s with
  | .error (.thrown e) s => (handler >>= fun _ => throw (.thrown e) : Prog β) s
  | .error .aborted s => .error .aborted s
  | .error .running s => .error .running s
  | .ok b s => .ok b s

/-- `execute(const char *const *)`, for the arguments before the `NULL`. -/
def executeArgv (debugging : Bool) (argv : List Bytes) : EStateM.Result Stop Exec Int :=
  match argv with
  | [] => .error .aborted (.start o)
  | argv0 :: _ => tryCatch (body o debugging argv0 argv) cleanup (.start o)

/-- `execute(const std::vector<std::string> &)`. -/
def execute (debugging : Bool) (command : List Bytes) : EStateM.Result Stop Exec Int :=
  executeArgv o debugging (command.map cstr)

end Execute

end Blockad
