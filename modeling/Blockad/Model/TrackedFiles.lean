import Blockad.Lib.Lifetimes
import Blockad.Model.InotifyWatcher
import Blockad.Model.PollingWatcher

/-!
# `Blockad.Model.TrackedFiles`: what the watchers do with their files

`track` numbers the `FILE`s in the order of their opening, and logs what happens to each. It changes
nothing else about the system calls. A read is no system call of the model, but what each `getc`
does besides is a parameter of `workWith`; `logGetc` logs it.

`InUse` is one watcher between its construction and its destruction: `work` is called from time to
time, and the world changes in between. An exception of `work` is caught, and `work` can be called
again after it.
-/

set_option autoImplicit false

namespace Blockad

open Bytes Lifetimes

variable {H ω α W : Type}

/-! ### Numbered files -/

/-- A world with the log about its `FILE`s. -/
structure Tracked (W : Type) where
  world : W
  next : Nat
  log : List Event

namespace Tracked

/-- A new world, in which no file was opened. -/
def start (world : W) : Tracked W := ⟨world, 0, []⟩

/-- A system call that the log does not show. -/
def lift {β : Type} (call : EStateM Errno W β) : EStateM Errno (Tracked W) β := fun t =>
  match call t.world with
  | .ok b world => .ok b { t with world }
  | .error errno world => .error errno { t with world }

/-- One more event. -/
def note (e : Event) (t : Tracked W) : Tracked W := { t with log := t.log ++ [e] }

/-- A system call on a file. -/
def on {β : Type} (h : Nat × H) (call : H → EStateM Errno W β) : EStateM Errno (Tracked W) β :=
  fun t => lift (call h.2) (note (.used h.1) t)

/-- `fopen`. -/
def fopen (os : Syscalls H W) (path : Bytes) : EStateM Errno (Tracked W) (Nat × H) := fun t =>
  match os.fopen path t.world with
  | .ok h world => .ok (t.next, h) ⟨world, t.next + 1, t.log ++ [.acquired t.next]⟩
  | .error errno world => .error errno { t with world }

/-- `fclose`. -/
def fclose (os : Syscalls H W) (h : Nat × H) (t : Tracked W) : Tracked W :=
  note (.released h.1) { t with world := os.fclose h.2 t.world }

end Tracked

/-- The system calls, with numbered files. -/
def track (os : Syscalls H W) : Syscalls (Nat × H) (Tracked W) where
  inotifyInit := Tracked.lift os.inotifyInit
  inotifyAddWatch ifd path mask := Tracked.lift (os.inotifyAddWatch ifd path mask)
  inotifyRmWatch ifd wd := Tracked.lift (os.inotifyRmWatch ifd wd)
  readEvents ifd := Tracked.lift (os.readEvents ifd)
  close fd t := { t with world := os.close fd t.world }
  fcntlGetfl fd := Tracked.lift (os.fcntlGetfl fd)
  fcntlSetfl fd := Tracked.lift (os.fcntlSetfl fd)
  fopen := Tracked.fopen os
  fclose := Tracked.fclose os
  seekEnd h := Tracked.on h os.seekEnd
  unread h offset t := os.unread h.2 offset t.world

/-- The system calls of `PollingWatcher`, with numbered files. -/
def trackPoll (os : PollSyscalls H W) : PollSyscalls (Nat × H) (Tracked W) where
  toSyscalls := track os.toSyscalls
  time t := os.time t.world
  fstat h := Tracked.on h os.fstat
  stat path := Tracked.lift (os.stat path)

/-! ### Reads -/

namespace Watcher

/-- `getc` on the open file. -/
def logGetc : Prog (Nat × H) ω α (Tracked W) Unit := do
  if let some f := (← self).fp then
    sysVoid (Tracked.note (.used f.handle.1))

end Watcher

/-! ### A watcher in use -/

/-- What can happen. -/
inductive Use (W : Type) where
  | changed (world : W)
  | worked

/-- A watcher after its construction. -/
def NewlyMade (construct : EStateM Halt (Tracked W) (Watcher (Nat × H) ω))
    (s : Call (Nat × H) ω α (Tracked W)) : Prop :=
  ∃ world, construct (Tracked.start world) = .ok s.self s.world

/-- One call to `work`, or one change of the world. -/
inductive InUse (work : Prog (Nat × H) ω α (Tracked W) Unit) (s : Call (Nat × H) ω α (Tracked W)) :
    Use W → Call (Nat × H) ω α (Tracked W) → Prop where
  | changed (world : W) :
      InUse work s (.changed world) { s with world := { s.world with world } }
  | worked {s' : Call (Nat × H) ω α (Tracked W)} (h : work s = .ok () s') : InUse work s .worked s'
  | caught {s' : Call (Nat × H) ω α (Tracked W)} {e : Exn} (h : work s = .error (.thrown e) s') :
      InUse work s .worked s'

end Blockad
