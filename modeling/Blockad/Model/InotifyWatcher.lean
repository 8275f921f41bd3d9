import Blockad.Model.Watcher

/-!
# `Blockad.Model.InotifyWatcher`: `InotifyWatcher.cc`

The watcher watches the directory of its file, and the file itself while it is open. `work`
handles the events that one `read` delivers, in order. An event of the file reads it; a
directory event about its name closes the file, opens what is at the path now and reads that.
-/

set_option autoImplicit false

namespace Blockad

open Bytes

/-- The members of `InotifyWatcher`. -/
structure Inotify where
  base : Bytes
  dir : Bytes
  ifd : Int
  fileWd : Int
  dirWd : Int

/-- `InotifyWatcher`. -/
abbrev InotifyWatcher (H : Type) := Watcher H Inotify

namespace InotifyWatcher

open Watcher

variable {H α W : Type} (os : Syscalls H W)

/-- `throw Watcher::SystemError(what, errno)`. -/
def systemError {β : Type} (what : Bytes) (errno : Errno) : Prog H Inotify α W β :=
  throw (.thrown (.watcherSystemError what (some errno)))

/-- `throw Watcher::IOError(what, errno)`. -/
def ioError {β : Type} (what : Bytes) (errno : Errno) : Prog H Inotify α W β :=
  throw (.thrown (.watcherIOError what errno))

/-- An assignment to the descriptors. -/
def assignOwn (f : Inotify → Inotify) : Prog H Inotify α W Unit :=
  assign fun w => { w with own := f w.own }

/-- `InotifyWatcher::openFile`. -/
def openFile : Prog H Inotify α W Unit := do
  let { path, own, .. } ← self
  if (← self).fp.isNone then
    -- If it doesn't exist, that's OK
    let fp ← sys (some <$> os.fopen (cstr path)) fun errno =>
      if errno ≠ .ENOENT then ioError (lit "opening " ++ path) errno else pure none
    if let some handle := fp then
      assign fun w => { w with fp := some { handle, offset := 0 } }
      let fileWd ← sys (os.inotifyAddWatch own.ifd (cstr path) [.modify, .moveSelf, .deleteSelf])
        (systemError (lit "inotify_add_watch for " ++ path))
      assignOwn fun own => { own with fileWd }

/-- The partial line that `closeFile` delivers. -/
def flushLine (callback : Callback H α) : Prog H Inotify α W Unit := do
  if !(← self).line.isEmpty then
    processLine callback
    assign clearLine

/-- The watch that `closeFile` removes. -/
def removeWatch : Prog H Inotify α W Unit := do
  let own := (← self).own
  if own.fileWd ≥ 0 then
    sys (os.inotifyRmWatch own.ifd own.fileWd) fun errno => do
      assignOwn fun own => { own with fileWd := -1 }
      -- A spurious EINVAL is only worth a warning
      if errno ≠ .EINVAL then
        systemError (lit "inotify_rm_watch for " ++ (← self).path) errno
    assignOwn fun own => { own with fileWd := -1 }

/-- `InotifyWatcher::closeFile`. -/
def closeFile (callback : Callback H α) : Prog H Inotify α W Unit := do
  if let some f := (← self).fp then
    flushLine callback
    removeWatch os
    sysVoid (os.fclose f.handle)
    assign fun w => { w with fp := none }

/-- The body of `InotifyWatcher::InotifyWatcher`. -/
def start : Prog H Inotify Unit W Unit := do
  let ifd ← sys os.inotifyInit (systemError (lit "inotify_init"))
  assignOwn fun own => { own with ifd }
  let { path, own, .. } ← self
  -- Watch the containing directory
  let dirWd ← sys (os.inotifyAddWatch ifd (cstr own.dir) [.create, .delete, .movedFrom, .movedTo])
    (systemError (lit "inotify_add_watch for " ++ own.dir))
  assignOwn fun own => { own with dirWd }
  openFile os
  -- Discard initial content
  if let some f := (← self).fp then
    let offset ← sys (os.seekEnd f.handle) (ioError (lit "seeking " ++ path))
    assign fun w => { w with fp := some { f with offset } }

/-- `~WatcherImplementation`. -/
def destroyBase (w : InotifyWatcher H) (world : W) : W :=
  match w.fp with
  | some f => os.fclose f.handle world
  | none => world

/-- `new InotifyWatcher(path, watcher)`. An exception destroys the base class again. -/
def construct (path : Bytes) : EStateM Halt W (InotifyWatcher H) := fun world =>
  let own : Inotify :=
    { base := getBaseName path, dir := getDirName path, ifd := -1, fileWd := -1, dirWd := -1 }
  match start os { self := { path, fp := none, line := [], own }, client := (), world } with
  | .ok () s => .ok s.self s.world
  | .error h s => .error h (destroyBase os s.self s.world)

/-- `delete`: `~InotifyWatcher`, and `~WatcherImplementation` after it. -/
def destroy (w : InotifyWatcher H) (world : W) : W :=
  destroyBase os w (if w.own.ifd ≥ 0 then os.close w.own.ifd world else world)

/-- `InotifyWatcher::pollfd`. -/
def pollfd (w : InotifyWatcher H) : Int := w.own.ifd

section
variable (getc : Prog H Inotify α W Unit) (os : Syscalls H W) (callback : Callback H α)

/-- An event of the watched file. -/
def fileEventWith (event : InotifyEvent) : Prog H Inotify α W Unit := do
  if event.wd == (← self).own.fileWd then
    -- Read as much as we can from the file, whatever happened
    readLinesWith getc os callback (closeFile os callback)
    -- If it was deleted or renamed away, we're done with this version of it
    if event.mask == .moveSelf || event.mask == .deleteSelf then
      closeFile os callback

/-- An event of the directory about the name of the file. -/
def dirEventWith (event : InotifyEvent) : Prog H Inotify α W Unit := do
  let own := (← self).own
  if event.wd == own.dirWd && !event.name.isEmpty && event.name == cstr own.base then
    -- Close the old version, and open the new one
    closeFile os callback
    openFile os
    if (← self).fp.isSome then
      readLinesWith getc os callback (closeFile os callback)

/-- One turn of the loop of `InotifyWatcher::work`. -/
def handleEventWith (event : InotifyEvent) : Prog H Inotify α W Unit := do
  fileEventWith getc os callback event
  dirEventWith getc os callback event

/-- `InotifyWatcher::work`, with what else each `getc` does. -/
def workWith : Prog H Inotify α W Unit := do
  let events ← sys (os.readEvents (← self).own.ifd) fun errno =>
    if errno ≠ .EINTR && errno ≠ .EAGAIN then
      systemError (lit "read from inotify fd") errno
    else pure []
  events.forM (handleEventWith getc os callback)

/-- An event of the watched file. -/
def fileEvent : InotifyEvent → Prog H Inotify α W Unit := fileEventWith (pure ()) os callback

/-- An event of the directory about the name of the file. -/
def dirEvent : InotifyEvent → Prog H Inotify α W Unit := dirEventWith (pure ()) os callback

/-- One turn of the loop of `InotifyWatcher::work`. -/
def handleEvent : InotifyEvent → Prog H Inotify α W Unit := handleEventWith (pure ()) os callback

/-- `InotifyWatcher::work`. -/
def work : Prog H Inotify α W Unit := workWith (pure ()) os callback

end

end InotifyWatcher

end Blockad
