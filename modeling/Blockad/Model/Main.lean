import Blockad.Model.BlockingWatcher
import Blockad.Model.InotifyWatcher

/-!
# `Blockad.Model.Main`: `updateWatchers` and the main loop of `blockad.cc`

`updateWatchers` reads three vectors by index. An index past the end is undefined behavior,
which is what `Halt.undefined` stands for. For the old configuration it may also be any string:
the `With` functions take what is read there. `updateWatchers` works on watchers of either
implementation, so it is stated for a `WatcherClass`.

The main loop alternates between passes over the ready watchers (`checkWatchers`) and reloads
of the configuration (`reload`). Any `Halt` ends the daemon: the handlers outside the loops
only log what is thrown.
-/

set_option autoImplicit false

namespace Blockad

open Bytes

/-! ### Watchers -/

/-- The operations of the implementation that `WATCHER` stands for. -/
structure WatcherClass (W ω : Type) where
  new : (path : Bytes) → EStateM Halt W ω
  delete : ω → W → W
  pollfd : ω → Int

section
variable {H W ω : Type}

/-- `nonblock`. -/
def nonblock (os : Syscalls H W) (fd : Int) : EStateM Halt W Unit := fun world =>
  match os.fcntlGetfl fd world with
  | .error errno world => .error (.thrown (.ioError (lit "fcntl F_GETFL") none errno)) world
  | .ok true world => .ok () world
  | .ok false world =>
    match os.fcntlSetfl fd world with
    | .error errno world => .error (.thrown (.ioError (lit "fcntl F_SETFL") none errno)) world
    | .ok () world => .ok () world

/-- `WATCHER`, where there is inotify. -/
def inotifyClass (os : Syscalls H W) : WatcherClass W (InotifyWatcher H) where
  new := InotifyWatcher.construct os
  delete := InotifyWatcher.destroy os
  pollfd := InotifyWatcher.pollfd

/-- Delete redundant watchers. -/
def deleteAll (cls : WatcherClass W ω) (oldWatchers : List (Option ω)) (world : W) : W :=
  oldWatchers.foldl (fun world w => match w with
    | some w => cls.delete w world
    | none => world) world

end

/-! ### The re-use of watchers

The four functions take what an index past the end of `oldConfig->files` gives, and `nonblock`. -/

section
variable {W ω : Type} (stray : (i j : Nat) → Except Halt Bytes)

/-- `oldConfig->files[i]`, in turn `j` of the inner loop. -/
def fileAt (oldFiles : List Bytes) (i j : Nat) : Except Halt Bytes :=
  match oldFiles[i]? with
  | some oldFile => .ok oldFile
  | none => stray i j

/-- The inner loop of `updateWatchers`: the first `j` whose watcher can be re-used for file
`i` of the new configuration, or the number of old files. -/
def reuseLoopWith (oldFiles : List Bytes) (oldWatchers : List (Option ω)) (i : Nat) (file : Bytes)
    (j : Nat) : Except Halt Nat :=
  if j < oldFiles.length then
    match fileAt stray oldFiles i j with
    | .error h => .error h
    | .ok oldFile =>
      if file == oldFile then
        match oldWatchers[j]? with
        | none => .error .undefined
        | some (some _) => .ok j
        | some none => reuseLoopWith oldFiles oldWatchers i file (j + 1)
      else reuseLoopWith oldFiles oldWatchers i file (j + 1)
  else .ok j
termination_by oldFiles.length - j

/-- The index of an existing watcher to re-use. -/
def findReusableWith (oldFiles : Option (List Bytes)) (oldWatchers : List (Option ω)) (i : Nat)
    (file : Bytes) : Except Halt (Option Nat) :=
  match oldFiles with
  | none => .ok none
  | some oldFiles =>
    match reuseLoopWith stray oldFiles oldWatchers i file 0 with
    | .error h => .error h
    | .ok j => .ok (if j < oldFiles.length then some j else none)

variable (nonblock : (fd : Int) → EStateM Halt W Unit) (cls : WatcherClass W ω)

/-- The outer loop of `updateWatchers`, from file `i` of the new configuration on: the old
watchers that are left over, and the new vector. -/
def updateLoopWith (oldFiles : Option (List Bytes)) (i : Nat) (oldWatchers : List (Option ω))
    (newWatchers : List ω) : List Bytes → EStateM Halt W (List (Option ω) × List ω)
  | [] => pure (oldWatchers, newWatchers)
  | file :: files => do
    match findReusableWith stray oldFiles oldWatchers i file with
    | .error h => throw h
    | .ok (some j) =>
      match oldWatchers[j]? with
      | some (some watcher) =>
        updateLoopWith oldFiles (i + 1) (oldWatchers.set j none) (newWatchers ++ [watcher]) files
      | _ => throw .undefined
    | .ok none =>
      -- We didn't manage to re-use an existing watcher
      let newWatchers := newWatchers ++ [← cls.new file]
      match newWatchers[i]? with
      | none => throw .undefined
      | some watcher =>
        let fd := cls.pollfd watcher
        if fd ≥ 0 then nonblock fd
        updateLoopWith oldFiles (i + 1) oldWatchers newWatchers files

/-- `updateWatchers`, from the files of the configurations. The result is what it leaves in
`oldWatchers`. -/
def updateWatchersWith (oldFiles : Option (List Bytes)) (newFiles : List Bytes)
    (oldWatchers : List ω) : EStateM Halt W (List ω) := do
  let (oldWatchers, newWatchers) ←
    updateLoopWith stray nonblock cls oldFiles 0 (oldWatchers.map some) [] newFiles
  modify (deleteAll cls oldWatchers)
  return newWatchers

end

section
variable {H W ω : Type}

/-- Past the end, anything may happen. -/
def undefinedRead (_ _ : Nat) : Except Halt Bytes := .error .undefined

/-- The inner loop of `updateWatchers`. -/
def reuseLoop (oldFiles : List Bytes) (oldWatchers : List (Option ω)) (i : Nat) (file : Bytes)
    (j : Nat) : Except Halt Nat :=
  reuseLoopWith undefinedRead oldFiles oldWatchers i file j

/-- The index of an existing watcher to re-use. -/
def findReusable (oldFiles : Option (List Bytes)) (oldWatchers : List (Option ω)) (i : Nat)
    (file : Bytes) : Except Halt (Option Nat) :=
  findReusableWith undefinedRead oldFiles oldWatchers i file

variable (os : Syscalls H W) (cls : WatcherClass W ω)

/-- The outer loop of `updateWatchers`. -/
def updateLoop (oldFiles : Option (List Bytes)) (i : Nat) (oldWatchers : List (Option ω))
    (newWatchers : List ω) (files : List Bytes) :
    EStateM Halt W (List (Option ω) × List ω) :=
  updateLoopWith undefinedRead (nonblock os) cls oldFiles i oldWatchers newWatchers files

/-- `updateWatchers`. -/
def updateWatchers (oldFiles : Option (List Bytes)) (newFiles : List Bytes)
    (oldWatchers : List ω) : EStateM Halt W (List ω) :=
  updateWatchersWith undefinedRead (nonblock os) cls oldFiles newFiles oldWatchers

end

/-! ### The main loop -/

section
variable {H α W : Type}

/-- One turn of the loop over the watchers after `select`. -/
def checkWatcher (os : Syscalls H W) (callback : Callback H α) (ready : Bool)
    (watcher : InotifyWatcher H) : EStateM Halt (α × W) (InotifyWatcher H) := fun (client, world) =>
  if 0 ≤ InotifyWatcher.pollfd watcher && ready then
    match InotifyWatcher.work os callback { self := watcher, client, world } with
    | .ok () s => .ok s.self (s.client, s.world)
    | .error h s => .error h (s.client, s.world)
  else .ok watcher (client, world)

/-- The loop over the watchers after `select`. -/
def checkWatchers (os : Syscalls H W) (callback : Callback H α) (ready : Nat → Bool) (i : Nat) :
    List (InotifyWatcher H) → EStateM Halt (α × W) (List (InotifyWatcher H))
  | [] => pure []
  | watcher :: watchers => do
    let watcher ← checkWatcher os callback (ready i) watcher
    return watcher :: (← checkWatchers os callback ready (i + 1) watchers)

end

variable [Libc] {H W : Type}

/-- The daemon between two turns of its loops. -/
structure Daemon (H W : Type) where
  config : ConfFile
  watchers : List (InotifyWatcher H)
  store : Store
  world : W

namespace Daemon

variable (os : Syscalls H W)

/-- The inner loop, once: `ready` says which watchers have something to read. -/
def check (ready : Nat → Bool) : EStateM Halt (Daemon H W) Unit := fun d =>
  match checkWatchers os (fun _ => BlockingWatcher.processLine d.config) ready 0 d.watchers
      (d.store, d.world) with
  | .ok watchers (store, world) => .ok () { d with watchers, store, world }
  | .error h (store, world) => .error h { d with store, world }

/-- What follows SIGHUP, with the configuration file as it is then. -/
def reload (conffile : Bytes) (file : FileContent) : EStateM Halt (Daemon H W) Unit := fun d =>
  match ConfFile.construct conffile file with
  | .error e => if e.isRuntimeError then .ok () d else .error (.thrown e) d
  | .ok config =>
    match updateWatchers os (inotifyClass os) (some d.config.files) config.files d.watchers
        d.world with
    | .ok watchers world => .ok () { d with config, watchers, world }
    | .error h world => .error h { d with world }

/-- The start of the daemon, up to its loops. -/
def start (conffile : Bytes) (file : FileContent) (future : Nat → Attempt) :
    EStateM Halt W (Daemon H W) := fun world =>
  match ConfFile.construct conffile file with
  | .error e => .error (.thrown e) world
  | .ok config =>
    match updateWatchers os (inotifyClass os) none config.files [] world with
    | .ok watchers world =>
      let store := { addressData := ∅, blockCalls := [], future }
      .ok { config, watchers, store, world } world
    | .error h world => .error h world

end Daemon

end Blockad
