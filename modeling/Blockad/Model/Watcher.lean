import Blockad.Model.Libc

/-!
# `Blockad.Model.Watcher`: `Watcher.h` and `WatcherImplementation.cc`

A watcher is an object with its own state. Its operations are programs over a `Call`: the
watcher itself, the client whose `processLine` it calls back, and the world that its system
calls act on. What an exception leaves behind is part of the result.

`Syscalls` is the interface to the kernel, for any type `W` of worlds and any type `H` of open
files. A read is modeled by what `getc` would deliver from a given offset on (`unread`);
`readLines` then takes it byte by byte, so that an exception of the client leaves the rest
unread. What a `getc` does besides is a parameter, which is nothing for the watchers themselves
and a log entry where the lives of the files are followed.
-/

set_option autoImplicit false

namespace Blockad

open Bytes

/-! ### The kernel -/

/-- The kinds of inotify events. -/
inductive EventKind where
  | modify
  | moveSelf
  | deleteSelf
  | create
  | delete
  | movedFrom
  | movedTo
  | ignored
  | queueOverflow
  deriving DecidableEq, Repr

/-- `struct inotify_event`, with an empty name when `len` is zero. -/
structure InotifyEvent where
  wd : Int
  mask : EventKind
  name : Bytes
  deriving DecidableEq, Repr

/-- The system calls of the watchers, on worlds `W` with open files `H`. -/
structure Syscalls (H W : Type) where
  inotifyInit : EStateM Errno W Int
  inotifyAddWatch : (ifd : Int) → (path : Bytes) → (mask : List EventKind) → EStateM Errno W Int
  inotifyRmWatch : (ifd wd : Int) → EStateM Errno W Unit
  /-- `read` on an inotify descriptor: the events it delivers, each of them whole. -/
  readEvents : (ifd : Int) → EStateM Errno W (List InotifyEvent)
  close : (fd : Int) → W → W
  fcntlGetfl : (fd : Int) → EStateM Errno W Bool
  fcntlSetfl : (fd : Int) → EStateM Errno W Unit
  fopen : (path : Bytes) → EStateM Errno W H
  fclose : H → W → W
  /-- `fseek(fp, 0, SEEK_END)`: the offset at the end. -/
  seekEnd : H → EStateM Errno W Nat
  /-- The bytes that `getc` delivers from an offset on, and the error that ends them, if they
  do not end in EOF. -/
  unread : H → (offset : Nat) → W → Bytes × Option Errno

/-! ### The base class -/

/-- `FILE *`, open for reading: the file, and how far it was read. -/
structure File (H : Type) where
  handle : H
  offset : Nat

/-- `WatcherImplementation`, with the members `own` of the derived class. -/
structure Watcher (H ω : Type) where
  path : Bytes
  fp : Option (File H)
  line : Bytes
  own : ω

/-- A watcher at work. -/
structure Call (H ω α W : Type) where
  self : Watcher H ω
  client : α
  world : W

/-- The operations of a watcher. -/
abbrev Prog (H ω α W : Type) := EStateM Halt (Call H ω α W)

/-- The callback of a client. It gets the line, and the file that was open, which only the
histories of the proofs look at. -/
abbrev Callback (H α : Type) := Option (File H) → Bytes → EStateM Halt α Unit

namespace Watcher

variable {H ω α W : Type}

/-- A system call, with the handling of its failure. -/
def sys {β : Type} (call : EStateM Errno W β) (fail : Errno → Prog H ω α W β) :
    Prog H ω α W β := fun s =>
  match call s.world with
  | .ok b world => .ok b { s with world }
  | .error errno world => fail errno { s with world }

/-- A system call that cannot fail. -/
def sysVoid (call : W → W) : Prog H ω α W Unit :=
  modify fun s => { s with world := call s.world }

/-- What the kernel shows without a change to the world. -/
def observe {β : Type} (f : W → β) : Prog H ω α W β := fun s => .ok (f s.world) s

/-- The members of the watcher. -/
def self : Prog H ω α W (Watcher H ω) := fun s => .ok s.self s

/-- An assignment to the members of the watcher. -/
def assign (f : Watcher H ω → Watcher H ω) : Prog H ω α W Unit :=
  modify fun s => { s with self := f s.self }

/-- `WatcherImplementation::processLine(line)`. -/
def processLine (callback : Callback H α) : Prog H ω α W Unit := fun s =>
  match callback s.self.fp s.self.line s.client with
  | .ok () client => .ok () { s with client }
  | .error h client => .error h { s with client }

/-- `WatcherImplementation::getDirName`. -/
def getDirName (p : Bytes) : Bytes :=
  match p.reverse.idxOf? (chr '/') with
  | none => lit "."
  | some i => p.take (p.length - i)

/-- `WatcherImplementation::getBaseName`. -/
def getBaseName (p : Bytes) : Bytes :=
  match p.reverse.idxOf? (chr '/') with
  | none => p
  | some i => p.drop (p.length - i)

/-- `line += c`, for the next byte of the file. -/
def takeByte (c : UInt8) (w : Watcher H ω) : Watcher H ω :=
  { w with
    line := w.line ++ [c]
    fp := w.fp.map fun f => { f with offset := f.offset + 1 } }

/-- `line.clear()`. -/
def clearLine (w : Watcher H ω) : Watcher H ω := { w with line := [] }

section
variable (getc : Prog H ω α W Unit) (os : Syscalls H W) (callback : Callback H α)
  (closeFile : Prog H ω α W Unit)

/-- The loops of `readLines` over the bytes that `getc` delivers, with what else each `getc`
does. `closeFile` is the one of the derived class. -/
def readBytesWith (error : Option Errno) : Bytes → Prog H ω α W Unit
  | [] => do
    getc
    match error with
    | none => pure ()
    | some errno => do
      closeFile
      throw (.thrown (.watcherIOError (lit "reading " ++ (← self).path) errno))
  | c :: rest => do
    getc
    assign (takeByte c)
    if c == nl then
      processLine callback
      assign clearLine
    readBytesWith error rest

/-- `WatcherImplementation::readLines`, with what else each `getc` does. -/
def readLinesWith : Prog H ω α W Unit := do
  match (← self).fp with
  | none => throw .undefined
  | some f =>
    let (bytes, error) ← observe (os.unread f.handle f.offset)
    readBytesWith getc callback closeFile error bytes

/-- The loops of `readLines`. -/
def readBytes : Option Errno → Bytes → Prog H ω α W Unit :=
  readBytesWith (pure ()) callback closeFile

/-- `WatcherImplementation::readLines`. -/
def readLines : Prog H ω α W Unit := readLinesWith (pure ()) os callback closeFile

end

end Watcher

end Blockad
