import Blockad.Model.Filesystem

/-!
# `Blockad.Model.PollingWatcher`: `PollingWatcher.cc`

The watcher for platforms without inotify. `work` is called once a second. It compares the
identity of the open file with that of the file at the path, closes the open file if they
differ, opens the one at the path if none is open, and reads.

The clock and `stat` are system calls of this watcher only. `pollKernel` gives them for the file
system of `Blockad.Model.Filesystem`.
-/

set_option autoImplicit false

namespace Blockad

open Bytes

/-- `st_dev` and `st_ino`. -/
structure Stat where
  dev : Int
  ino : Int
  deriving DecidableEq, Repr

/-- The system calls of the base class, and those of `PollingWatcher`. -/
structure PollSyscalls (H W : Type) extends Syscalls H W where
  time : W → Int
  fstat : H → EStateM Errno W Stat
  stat : (path : Bytes) → EStateM Errno W Stat

/-- The members of `PollingWatcher`. -/
structure Polling where
  next : Int
  dev : Int
  ino : Int

/-- `PollingWatcher`. -/
abbrev PollingWatcher (H : Type) := Watcher H Polling

namespace PollingWatcher

open Watcher

variable {H α W : Type} (os : PollSyscalls H W)

/-- `throw Watcher::IOError(what, errno)`. -/
def ioError {β : Type} (what : Bytes) (errno : Errno) : Prog H Polling α W β :=
  throw (.thrown (.watcherIOError what errno))

/-- An assignment to the members of the derived class. -/
def assignOwn (f : Polling → Polling) : Prog H Polling α W Unit :=
  assign fun w => { w with own := f w.own }

/-- `PollingWatcher::openFile`. -/
def openFile : Prog H Polling α W Unit := do
  let path := (← self).path
  if (← self).fp.isNone then
    let fp ← sys (some <$> os.fopen (cstr path)) fun errno =>
      if errno ≠ .ENOENT then ioError (lit "opening " ++ path) errno else pure none
    if let some handle := fp then
      assign fun w => { w with fp := some { handle, offset := 0 } }
      let sb ← sys (os.fstat handle) (ioError (lit "fstat " ++ path))
      assignOwn fun own => { own with dev := sb.dev, ino := sb.ino }

/-- `PollingWatcher::closeFile`. -/
def closeFile (callback : Callback H α) : Prog H Polling α W Unit := do
  if let some f := (← self).fp then
    if !(← self).line.isEmpty then
      processLine callback
      assign clearLine
    sysVoid (os.fclose f.handle)
    assign fun w => { w with fp := none }
    assignOwn fun own => { own with dev := -1, ino := -1 }

/-- `~WatcherImplementation`. -/
def destroyBase (w : PollingWatcher H) (world : W) : W :=
  match w.fp with
  | some f => os.fclose f.handle world
  | none => world

/-- `new PollingWatcher(path, watcher)`. An exception destroys the base class again. -/
def construct (path : Bytes) : EStateM Halt W (PollingWatcher H) := fun world =>
  let own : Polling := { next := os.time world, dev := -1, ino := -1 }
  match openFile os { self := { path, fp := none, line := [], own }, client := (), world } with
  | .ok () s => .ok s.self s.world
  | .error h s => .error h (destroyBase os s.self s.world)

/-- `delete`: `~PollingWatcher`, and `~WatcherImplementation` after it. -/
def destroy (w : PollingWatcher H) (world : W) : W :=
  destroyBase os w (match w.fp with
    | some f => os.fclose f.handle world
    | none => world)

/-- The file at the path is another one than the open one. -/
def isReplaced : Prog H Polling α W Bool := do
  let { path, own, .. } ← self
  let sb ← sys (some <$> os.stat (cstr path)) fun _ => pure none
  return match sb with
  | none => true
  | some sb => sb.ino != own.ino || sb.dev != own.dev

/-- `PollingWatcher::work`, with what else each `getc` does. -/
def workWith (getc : Prog H Polling α W Unit) (os : PollSyscalls H W) (callback : Callback H α) :
    Prog H Polling α W Unit := do
  -- Check again in a second
  let next ← observe os.time
  assignOwn fun own => { own with next := next + 1 }
  -- If the file is open, verify that we're still reading the right one
  if (← self).fp.isSome then
    if ← isReplaced os then
      closeFile os callback
  -- If the file wasn't open, see if it is now
  if (← self).fp.isNone then
    openFile os
  -- The file must now be open
  if (← self).fp.isSome then
    readLinesWith getc os.toSyscalls callback (closeFile os callback)

/-- `PollingWatcher::work`. -/
def work (callback : Callback H α) : Prog H Polling α W Unit := workWith (pure ()) os callback

end PollingWatcher

/-- The system calls of a `PollingWatcher`. All files are on one device. -/
def pollKernel (path : Bytes) (now : Int) : PollSyscalls Handle Filesystem where
  toSyscalls := kernel path 0
  time _ := now
  fstat h := pure ⟨0, h.inode⟩
  stat p := fun fs =>
    if p = cstr path then
      match fs.files.occupant with
      | none => .error .ENOENT fs
      | some i => .ok ⟨0, i⟩ fs
    else .error .ENOENT fs

end Blockad
