import Blockad.Model.InotifyWatcher
import Mathlib.Logic.Function.Basic

/-!
# `Blockad.Model.Filesystem`: the watched path, its directory, and inotify

The environment of an `InotifyWatcher`. The sources only meet it through system calls, so it
follows the documentation of these, inotify(7) above all. `Change` is what other processes do.
Each change queues its events, on the directory and on a watched file, in order.

A period is the time that one file is at the watched path, from its arrival to its departure.
The number of the period, the lengths at departure and the closed files are history: they say
what happened, and no system call depends on them.
-/

set_option autoImplicit false

namespace Blockad

open Bytes

/-- An open file, with the period and the length that it had when it was opened. -/
structure Handle where
  inode : Nat
  period : Nat
  openLen : Nat
  deriving DecidableEq, Repr

/-! ### Files -/

/-- The files, by inode. -/
structure Files where
  content : Nat → Bytes
  /-- The inodes from here on are still unused. -/
  freshInode : Nat
  /-- The file at the watched path. -/
  occupant : Option Nat
  /-- The files that have other names. -/
  elsewhere : List Nat
  /-- The current period, or the last one. -/
  period : Nat
  /-- The length of the file at the end of each period that is over. -/
  leftLen : Nat → Option Nat
  /-- The files that were closed after the end of the period they were opened in. -/
  closed : List Handle

/-- What other processes do. A rename may stay in the directory, from or to another name there.
Where a file loses its last name, `early` says that its inode goes at once; with a file that
is still open somewhere, it goes later (`destroy`) or never. -/
inductive Change where
  | append (i : Nat) (bytes : Bytes)
  | createElsewhere (bytes : Bytes)
  | create
  | renameAway (dest : Option Bytes)
  | renameOnto (i : Nat) (source : Option Bytes) (early : Bool)
  | unlink (early : Bool)
  | destroy (i : Nat)
  /-- An event of the directory about another name. -/
  | notice (event : InotifyEvent)

/-- The watch descriptor of the directory: the first of the inotify instance. -/
def dirWd : Int := 1

namespace Files

/-- The changes that can happen. `name` is the watched one. -/
def Allows (fs : Files) (name : Bytes) : Change → Prop
  | .append i _ => i < fs.freshInode
  | .createElsewhere _ => True
  | .create => fs.occupant = none
  | .renameAway dest => fs.occupant.isSome ∧ dest ≠ some name
  | .renameOnto i source _ => i ∈ fs.elsewhere ∧ source ≠ some name
  | .unlink _ => fs.occupant.isSome
  | .destroy i => i < fs.freshInode ∧ fs.occupant ≠ some i ∧ i ∉ fs.elsewhere
  | .notice event => event.wd = dirWd ∧ event.name ≠ name

/-- A new file. -/
def newInode (fs : Files) (bytes : Bytes) : Files :=
  { fs with
    content := Function.update fs.content fs.freshInode bytes
    freshInode := fs.freshInode + 1 }

/-- The end of the period, if there is a file at the path. -/
def depart (fs : Files) : Files :=
  match fs.occupant with
  | none => fs
  | some i =>
    { fs with
      occupant := none
      leftLen := Function.update fs.leftLen fs.period (some (fs.content i).length) }

/-- The start of the next period. -/
def arrive (fs : Files) (i : Nat) : Files :=
  { fs with occupant := some i, period := fs.period + 1 }

/-- The files after a change. -/
def change (fs : Files) : Change → Files
  | .append i bytes => { fs with content := Function.update fs.content i (fs.content i ++ bytes) }
  | .createElsewhere bytes =>
    { fs.newInode bytes with elsewhere := fs.freshInode :: fs.elsewhere }
  | .create => (fs.newInode []).arrive fs.freshInode
  | .renameAway _ => { fs.depart with elsewhere := fs.occupant.toList ++ fs.elsewhere }
  | .renameOnto i _ _ => { fs.depart.arrive i with elsewhere := fs.elsewhere.erase i }
  | .unlink _ => fs.depart
  | .destroy _ => fs
  | .notice _ => fs

/-- `fopen`. -/
def handle (fs : Files) (i : Nat) : Handle := ⟨i, fs.period, (fs.content i).length⟩

/-- `fclose`. -/
def close (fs : Files) (h : Handle) : Files :=
  if (fs.leftLen h.period).isSome then { fs with closed := fs.closed ++ [h] } else fs

end Files

/-! ### Events -/

/-- An inotify instance: the watches of files, and the events that were not read yet. -/
structure Notifier where
  watches : List (Int × Nat)
  nextWd : Int
  queue : List InotifyEvent

namespace Notifier

/-- An event that repeats the last one is left out. -/
def notify (n : Notifier) (event : InotifyEvent) : Notifier :=
  if n.queue.getLast? = some event then n else { n with queue := n.queue ++ [event] }

/-- An event of a file, if it is watched. -/
def notifySelf (n : Notifier) (i : Nat) (mask : EventKind) : Notifier :=
  (n.watches.filter (·.2 == i)).foldl (fun n watch => n.notify ⟨watch.1, mask, []⟩) n

/-- The inode goes, and its watch with it. -/
def destroy (n : Notifier) (i : Nat) : Notifier :=
  { (n.notifySelf i .deleteSelf).notifySelf i .ignored with
    watches := n.watches.filter (·.2 != i) }

/-- The notifier after a change to `fs`. -/
def change (n : Notifier) (fs : Files) (name : Bytes) : Change → Notifier
  | .append i _ => n.notifySelf i .modify
  | .createElsewhere _ => n
  | .create => n.notify ⟨dirWd, .create, name⟩
  | .renameAway dest =>
    -- The directory hears of a rename before the file that is renamed
    let n := n.notify ⟨dirWd, .movedFrom, name⟩
    let n := dest.elim n fun dest => n.notify ⟨dirWd, .movedTo, dest⟩
    fs.occupant.elim n fun i => n.notifySelf i .moveSelf
  | .renameOnto i source early =>
    -- The file that is replaced may lose its last name
    let n := if early then fs.occupant.elim n n.destroy else n
    let n := source.elim n fun source => n.notify ⟨dirWd, .movedFrom, source⟩
    (n.notify ⟨dirWd, .movedTo, name⟩).notifySelf i .moveSelf
  | .unlink early =>
    let n := if early then fs.occupant.elim n n.destroy else n
    n.notify ⟨dirWd, .delete, name⟩
  | .destroy i => n.destroy i
  | .notice event => n.notify event

/-- `inotify_add_watch` for a file: a file that is watched keeps its descriptor. -/
def addWatch (n : Notifier) (i : Nat) : Int × Notifier :=
  match n.watches.find? (·.2 == i) with
  | some watch => (watch.1, n)
  | none => (n.nextWd, { n with watches := (n.nextWd, i) :: n.watches, nextWd := n.nextWd + 1 })

/-- `inotify_rm_watch`, for a watch there is. -/
def rmWatch (n : Notifier) (wd : Int) : Notifier :=
  if n.watches.any (·.1 == wd) then
    { n with watches := n.watches.filter (·.1 != wd) }.notify ⟨wd, .ignored, []⟩
  else n

end Notifier

/-! ### System calls -/

/-- The files and the inotify instance of the watcher. -/
structure Filesystem where
  files : Files
  inotify : Notifier

/-- The file system after a change. -/
def Filesystem.change (fs : Filesystem) (name : Bytes) (c : Change) : Filesystem :=
  { files := fs.files.change c, inotify := fs.inotify.change fs.files name c }

/-- The system calls, for the watched `path`. A `read` of the inotify descriptor delivers the
first `k` events. -/
def kernel (path : Bytes) (k : Nat) : Syscalls Handle Filesystem where
  inotifyInit := pure 3
  inotifyAddWatch _ p _ := fun fs =>
    -- Only the directory is there at all times
    if p = cstr (Watcher.getDirName path) then .ok dirWd fs
    else if p = cstr path then
      match fs.files.occupant with
      | none => .error .ENOENT fs
      | some i => .ok (fs.inotify.addWatch i).1 { fs with inotify := (fs.inotify.addWatch i).2 }
    else .error .ENOENT fs
  inotifyRmWatch _ wd := fun fs =>
    if fs.inotify.watches.any (·.1 == wd) then
      .ok () { fs with inotify := fs.inotify.rmWatch wd }
    else .error .EINVAL fs
  readEvents _ := fun fs =>
    let { queue, .. } := fs.inotify
    .ok (queue.take k) { fs with inotify := { fs.inotify with queue := queue.drop k } }
  close _ := id
  fcntlGetfl _ := pure true
  fcntlSetfl _ := pure ()
  fopen p := fun fs =>
    if p = cstr path then
      match fs.files.occupant with
      | none => .error .ENOENT fs
      | some i => .ok (fs.files.handle i) fs
    else .error .ENOENT fs
  fclose h fs := { fs with files := fs.files.close h }
  seekEnd h := fun fs => .ok (fs.files.content h.inode).length fs
  unread h offset fs := ((fs.files.content h.inode).drop offset, none)

/-! ### The watcher and its environment -/

/-- A call of `processLine`. The offset of the file is the end of the text. -/
structure Delivery where
  file : File Handle
  text : Bytes

/-- The period that the text is on account of. -/
def Delivery.period (d : Delivery) : Nat := d.file.handle.period

/-- The position of the text in the file. -/
def Delivery.first (d : Delivery) : Nat := d.file.offset - d.text.length

/-- A client that keeps its calls. -/
def record : Callback Handle (List Delivery) := fun fp text log =>
  .ok () (log ++ fp.toList.map fun file => ⟨file, text⟩)

/-- A watcher with its calls of `processLine` so far and its environment, and the events that
the current `work` has read and not yet handled. -/
structure Monitored where
  call : Call Handle Inotify (List Delivery) Filesystem
  batch : List InotifyEvent

/-- What happens: a change, the start of a `work` that reads `k` events, or the handling of the
next event. -/
inductive Action where
  | changed (c : Change)
  | read (k : Nat)
  | handled

namespace Monitored

/-- A file system that was not watched yet. -/
structure Unwatched (fs : Filesystem) : Prop where
  occupant : ∀ i, fs.files.occupant = some i → i < fs.files.freshInode ∧ i ∉ fs.files.elsewhere
  elsewhere : ∀ i ∈ fs.files.elsewhere, i < fs.files.freshInode
  period : fs.files.period = 0
  leftLen : fs.files.leftLen = fun _ => none
  closed : fs.files.closed = []
  inotify : fs.inotify = ⟨[], dirWd + 1, []⟩

/-- A watcher was constructed for `path`, which is not a directory that contains itself. -/
def Constructed (path : Bytes) (s : Monitored) : Prop :=
  ∃ fs watcher fs', Unwatched fs ∧ cstr path ≠ cstr (Watcher.getDirName path) ∧
    InotifyWatcher.construct (kernel path 0) path fs = .ok watcher fs' ∧
      s = ⟨⟨watcher, [], fs'⟩, []⟩

/-- The steps. Changes may also happen between the events of one `work`. -/
inductive Transition (path : Bytes) : Monitored → Action → Monitored → Prop where
  | changed {s : Monitored} {c : Change}
      (h : s.call.world.files.Allows (cstr (Watcher.getBaseName path)) c) :
      Transition path s (.changed c)
        { s with call.world := s.call.world.change (cstr (Watcher.getBaseName path)) c }
  | read {s : Monitored} {k : Nat} (hbatch : s.batch = []) (hpos : 0 < k)
      (hle : k ≤ s.call.world.inotify.queue.length) :
      Transition path s (.read k)
        { batch := s.call.world.inotify.queue.take k
          call.self := s.call.self
          call.client := s.call.client
          call.world := { s.call.world with
            inotify.queue := s.call.world.inotify.queue.drop k } }
  | handled {s : Monitored} {event : InotifyEvent} {rest : List InotifyEvent}
      {call : Call Handle Inotify (List Delivery) Filesystem} (hbatch : s.batch = event :: rest)
      (hrun : InotifyWatcher.handleEvent (kernel path 0) record event s.call = .ok () call) :
      Transition path s .handled { call, batch := rest }

end Monitored

end Blockad
