import Blockad.Lib.SelfPipe
import Blockad.Model.Main

/-!
# `Blockad.Model.MainLoop`: the loops of `main`, and SIGHUP

The main loop step by step, from the installation of the signal handler on. SIGHUP is blocked
except around `select`, so it may be generated at any point, and `sighup_handler` runs at two of
them only. `signal_pipe` is given by the number of bytes in it: all bytes are equal, and what is
read from it is dropped.

What the loops do besides waiting is a `Body`. `Daemon.body` is that of the daemon.
-/

set_option autoImplicit false

namespace Blockad

/-- What `select` returns with. -/
inductive Selected where
  | failed (errno : Errno)
  /-- Whether `signal_pipe[0]` is in the set, and which of the watchers are. -/
  | ready (pipe : Bool) (watchers : Nat → Bool)

/-- Where the program is. -/
inductive Point where
  /-- The handler is installed, and there are no watchers yet. -/
  | installed
  /-- The start of the inner loop. -/
  | top
  /-- SIGHUP is unblocked, and `select` is about to look. -/
  | waiting
  /-- `select` is done, and SIGHUP is still unblocked. -/
  | selected (result : Selected)
  /-- SIGHUP is blocked again. -/
  | blocked (result : Selected)
  /-- The logfiles are checked. -/
  | checked (pipe : Bool)
  /-- The inner loop was left. -/
  | drained
  /-- `ConfFile` reads the new configuration. -/
  | reading
  | exited

/-- Where SIGHUP is not blocked. -/
def Point.unblocked : Point → Bool
  | .waiting => true
  | .selected _ => true
  | _ => false

/-- What the program does besides waiting. -/
structure Body (σ : Type) where
  /-- Create the initial watchers. -/
  create : EStateM Halt σ Unit
  /-- Check logfiles for updates. -/
  check : (ready : Nat → Bool) → EStateM Halt σ Unit
  /-- Read the new config, adjust watchers list. -/
  reload : (file : FileContent) → EStateM Halt σ Unit
  /-- What other processes do. -/
  change : σ → σ → Prop

/-- The process. -/
structure MainLoop (σ : Type) where
  point : Point
  /-- SIGHUP is pending. -/
  pending : Bool
  /-- The bytes in `signal_pipe`. -/
  pipe : Nat
  data : σ

/-- `sighup_handler`. -/
def sighupHandler (capacity pipe : Nat) : Nat := SelfPipe.write capacity pipe

/-- `sizeof drain`. -/
def drainSize : Nat := 4

/-- What happens. -/
inductive LoopAction where
  | generated
  | delivered
  | changed
  | created
  | unblocked
  | selected
  | blocked
  | interrupted
  | checked
  | drained
  | repeated
  | readBegan
  | reloaded
  | exited

namespace MainLoop

variable {σ : Type}

/-- The steps of the process, in the order of the source, after those of its environment. -/
inductive Step (capacity : Nat) (body : Body σ) : MainLoop σ → LoopAction → MainLoop σ → Prop where
  -- A pending signal absorbs further ones.
  | generated (s : MainLoop σ) : Step capacity body s .generated { s with pending := true }
  -- The handler runs to its end: SIGHUP is blocked in it.
  | delivered {s : MainLoop σ} (hpending : s.pending = true) (hpoint : s.point.unblocked = true) :
      Step capacity body s .delivered
        { s with pending := false, pipe := sighupHandler capacity s.pipe }
  | changed {s : MainLoop σ} {data : σ} (h : body.change s.data data) :
      Step capacity body s .changed { s with data }
  | created {s : MainLoop σ} {data : σ} (hpoint : s.point = .installed)
      (hrun : body.create s.data = .ok () data) :
      Step capacity body s .created { s with point := .top, data }
  | unblocked {s : MainLoop σ} (hpoint : s.point = .top) :
      Step capacity body s .unblocked { s with point := .waiting }
  | selected {s : MainLoop σ} {pipe : Bool} (watchers : Nat → Bool) (hpoint : s.point = .waiting)
      (hpipe : pipe = true ↔ 0 < s.pipe) :
      Step capacity body s .selected { s with point := .selected (.ready pipe watchers) }
  | selectFailed {s : MainLoop σ} (errno : Errno) (hpoint : s.point = .waiting) :
      Step capacity body s .selected { s with point := .selected (.failed errno) }
  | blocked {s : MainLoop σ} {result : Selected} (hpoint : s.point = .selected result) :
      Step capacity body s .blocked { s with point := .blocked result }
  | interrupted {s : MainLoop σ} (hpoint : s.point = .blocked (.failed .EINTR)) :
      Step capacity body s .interrupted { s with point := .top }
  | checked {s : MainLoop σ} {pipe : Bool} {watchers : Nat → Bool} {data : σ}
      (hpoint : s.point = .blocked (.ready pipe watchers))
      (hrun : body.check watchers s.data = .ok () data) :
      Step capacity body s .checked { s with point := .checked pipe, data }
  | repeated {s : MainLoop σ} (hpoint : s.point = .checked false) :
      Step capacity body s .repeated { s with point := .top }
  | drained {s : MainLoop σ} (hpoint : s.point = .checked true) :
      Step capacity body s .drained { s with point := .drained, pipe := s.pipe - drainSize }
  | readBegan {s : MainLoop σ} (hpoint : s.point = .drained) :
      Step capacity body s .readBegan { s with point := .reading }
  -- This includes a file that cannot be read, or has an error in it.
  | reloaded {s : MainLoop σ} {data : σ} (file : FileContent) (hpoint : s.point = .reading)
      (hrun : body.reload file s.data = .ok () data) :
      Step capacity body s .reloaded { s with point := .top, data }
  -- Where `main` calls `exit`, or leaves the loops with an exception.
  | createFailed {s : MainLoop σ} {data : σ} {halt : Halt} (hpoint : s.point = .installed)
      (hrun : body.create s.data = .error halt data) :
      Step capacity body s .exited { s with point := .exited, data }
  | unblockFailed {s : MainLoop σ} (hpoint : s.point = .top) :
      Step capacity body s .exited { s with point := .exited }
  | blockFailed {s : MainLoop σ} {result : Selected} (hpoint : s.point = .selected result) :
      Step capacity body s .exited { s with point := .exited }
  | selectError {s : MainLoop σ} {errno : Errno} (hpoint : s.point = .blocked (.failed errno))
      (herrno : errno ≠ .EINTR) : Step capacity body s .exited { s with point := .exited }
  | checkFailed {s : MainLoop σ} {pipe : Bool} {watchers : Nat → Bool} {data : σ} {halt : Halt}
      (hpoint : s.point = .blocked (.ready pipe watchers))
      (hrun : body.check watchers s.data = .error halt data) :
      Step capacity body s .exited { s with point := .exited, data }
  | reloadFailed {s : MainLoop σ} {data : σ} {halt : Halt} (file : FileContent)
      (hpoint : s.point = .reading) (hrun : body.reload file s.data = .error halt data) :
      Step capacity body s .exited { s with point := .exited, data }

/-- The handler was just installed. -/
structure Installed (s : MainLoop σ) : Prop where
  point : s.point = .installed
  pipe : s.pipe = 0

end MainLoop

/-! ### The daemon -/

namespace Daemon

variable [Libc] {H W : Type} (os : Syscalls H W)

/-- The initial watchers. -/
def create : EStateM Halt (Daemon H W) Unit := fun d =>
  match updateWatchers os (inotifyClass os) none d.config.files d.watchers d.world with
  | .ok watchers world => .ok () { d with watchers, world }
  | .error h world => .error h { d with world }

/-- The body of the loops. Other processes change the world only. -/
def body (conffile : Bytes) : Body (Daemon H W) where
  create := create os
  check := check os
  reload := reload os conffile
  change d d' := d' = { d with world := d'.world }

end Daemon

end Blockad
