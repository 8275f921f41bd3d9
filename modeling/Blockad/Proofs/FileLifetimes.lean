import Blockad.Model.Filesystem
import Blockad.Proofs.FileInvariants

/-!
# `Blockad.Proofs.FileLifetimes`: the files that the watchers open and close

The invariant is `Lifetimes.Held`: the file of the watcher is the only one that is not closed. What
is left are the destructors.

* `filesHeld_of_reachable`, `filesHeld_of_poll_reachable`: the invariant in all runs.
* `files_closed`: `InotifyWatcher` closes each of its files once. `PollingWatcher` does if it has
  none open at its destruction; otherwise both of its destructors close that file.
-/

set_option autoImplicit false

namespace Blockad.Proofs

open Bytes Lifetimes Prog Runs Watcher

/-! ### The invariant -/

section
variable {H ω α W : Type}

/-- The file of the watcher. -/
def heldBy (w : Watcher (Nat × H) ω) : Option Nat := w.fp.map fun f => f.handle.1

/-- The watcher has the only file that is not closed. -/
def FilesHeld (s : TrackedCall H ω α W) : Prop :=
  Held s.world.log s.world.next (heldBy s.self)

/-- An open file is held. -/
theorem heldBy_of_some {w : Watcher (Nat × H) ω} {f : File (Nat × H)} (h : w.fp = some f) :
    heldBy w = some f.handle.1 := by
  unfold heldBy
  rw [h]
  rfl

/-- Without an open file, none is held. -/
theorem heldBy_of_none {w : Watcher (Nat × H) ω} (h : w.fp = none) : heldBy w = none := by
  unfold heldBy
  rw [h]
  rfl

/-- A byte is read from the same file. -/
theorem heldBy_takeByte (c : UInt8) (w : Watcher (Nat × H) ω) :
    heldBy (takeByte c w) = heldBy w := by
  unfold heldBy takeByte
  cases w.fp <;> rfl

/-- The invariant, with an open file. -/
theorem FilesHeld.of_some {s : TrackedCall H ω α W} {f : File (Nat × H)} (hs : FilesHeld s)
    (hfp : s.self.fp = some f) : Held s.world.log s.world.next (some f.handle.1) := by
  rw [← heldBy_of_some hfp]
  exact hs

/-- The invariant, without one. -/
theorem FilesHeld.of_none {s : TrackedCall H ω α W} (hs : FilesHeld s) (hfp : s.self.fp = none) :
    Held s.world.log s.world.next none := by
  rw [← heldBy_of_none hfp]
  exact hs

/-- A client that is told something opens and closes nothing. -/
theorem filesHeld_processLine (callback : Callback (Nat × H) α) (s : TrackedCall H ω α W)
    (hs : FilesHeld s) :
    Ends (fun _ s' => FilesHeld { s' with self := clearLine s'.self }) (fun _ => FilesHeld)
      (processLine callback s) := by
  unfold processLine
  cases callback s.self.fp s.self.line s.client with
  | ok u client => exact hs
  | error e client => exact hs

/-- A byte keeps it. -/
theorem filesHeld_takeByte (s : TrackedCall H ω α W) (c : UInt8) (hs : FilesHeld s) :
    FilesHeld { s with self := takeByte c s.self } := by
  show Held s.world.log s.world.next (heldBy (takeByte c s.self))
  rw [heldBy_takeByte]
  exact hs

/-- A file is opened where none is held. -/
theorem opens_filesHeld : Opens (FilesHeld : TrackedCall H ω α W → Prop) where
  own _ _ hs := hs
  world _ _ hs := hs
  used s f hs hfp := by
    show Held (s.world.log ++ [.used f.handle.1]) s.world.next (heldBy s.self)
    rw [heldBy_of_some hfp]
    exact (hs.of_some hfp).use
  opened s _ hs hfp := (hs.of_none hfp).acquire

/-- The client and the line have no part in it. -/
theorem rules_filesHeld (callback : Callback (Nat × H) α) :
    Rules callback (FilesHeld : TrackedCall H ω α W → Prop) FilesHeld where
  toOpens := opens_filesHeld
  weaken _ := id
  byte s _ c hs _ _ := filesHeld_takeByte s c hs
  newline s _ hs _ := filesHeld_processLine callback _ (filesHeld_takeByte s nl hs)
  partialLine s _ hs _ _ := filesHeld_processLine callback s hs
  closed _ _ hs hfp _ := (hs.of_some hfp).release

end

section
variable {H α W : Type} {path : Bytes}

/-- **In every state** of a watcher that uses inotify. -/
theorem filesHeld_of_reachable (os : Syscalls H W) (callback : Callback (Nat × H) α)
    {s : TrackedCall H Inotify α W}
    (h : Reachable (NewlyMade (InotifyWatcher.construct (track os) path))
      (InUse (InotifyWatcher.workWith logGetc (track os) callback)) s) : FilesHeld s := by
  refine invariant_of_reachable opens_filesHeld.toFramed ?_
    (preserves_work os callback (rules_filesHeld callback)) h
  rintro s ⟨world, hrun⟩
  refine holds_of_construct os opens_filesHeld (fun s f offset hs hfp => ?_) (fun _ => .empty) hrun
  show Held s.world.log s.world.next (some f.handle.1)
  exact hs.of_some hfp

/-- **In every state** of a watcher that polls. -/
theorem filesHeld_of_poll_reachable (os : PollSyscalls H W) (callback : Callback (Nat × H) α)
    {s : TrackedCall H Polling α W}
    (h : Reachable (NewlyMade (PollingWatcher.construct (trackPoll os) path))
      (InUse (PollingWatcher.workWith logGetc (trackPoll os) callback)) s) : FilesHeld s := by
  refine invariant_of_reachable opens_filesHeld.toFramed ?_
    (preserves_poll_work os callback (rules_filesHeld callback)) h
  rintro s ⟨world, hrun⟩
  exact holds_of_poll_construct os opens_filesHeld (fun _ => .empty) hrun

end

/-! ### Destruction -/

section
variable {H α W : Type}

/-- What is true at the end of the destruction: each file was closed once, and none was used or
closed after that. -/
def ClosedOnce (t : Tracked W) : Prop := Safe t.log ∧ AllReleased t.log

/-- When nothing is held, each file was closed once. -/
theorem closedOnce_of_held {t : Tracked W} (h : Held t.log t.next none) : ClosedOnce t :=
  ⟨h.safe, h.allReleased⟩

/-- The base class closes the file that is still open. -/
theorem closedOnce_of_destroy {os : Syscalls H W} {s : TrackedCall H Inotify α W}
    (hs : FilesHeld s) : ClosedOnce (InotifyWatcher.destroy (track os) s.self s.world) := by
  -- The descriptor is no file of the log.
  have hclose (o : Option Nat) (h : Held s.world.log s.world.next o) :
      Held (if s.self.own.ifd ≥ 0 then (track os).close s.self.own.ifd s.world else s.world).log
        (if s.self.own.ifd ≥ 0 then (track os).close s.self.own.ifd s.world else s.world).next
        o := by
    split
    · exact h
    · exact h
  unfold InotifyWatcher.destroy InotifyWatcher.destroyBase
  cases hfp : s.self.fp with
  | none => exact closedOnce_of_held (hclose none (hs.of_none hfp))
  | some f => exact closedOnce_of_held (hclose _ (hs.of_some hfp)).release

/-- The file is closed by `~PollingWatcher` and by `~WatcherImplementation`. -/
theorem closedOnce_of_poll_destroy {os : PollSyscalls H W} {s : TrackedCall H Polling α W}
    (hs : FilesHeld s) :
    ClosedOnce (PollingWatcher.destroy (trackPoll os) s.self s.world) ↔ s.self.fp = none := by
  unfold PollingWatcher.destroy PollingWatcher.destroyBase
  cases hfp : s.self.fp with
  | none => exact ⟨fun _ => rfl, fun _ => closedOnce_of_held (hs.of_none hfp)⟩
  | some f =>
    constructor
    · rintro ⟨hsafe, -⟩
      -- The first destructor closed the file and left the pointer to it.
      have hreleased : .released f.handle.1 ∈ s.world.log ++ [.released f.handle.1] := by simp
      exact absurd hsafe (not_safe_of_release hreleased)
    · intro h
      cases h

/-- `InotifyWatcher` closes all its files. `PollingWatcher` closes those that it replaced, and the
last one twice. -/
theorem files_closed (os : Syscalls H W) (pollOs : PollSyscalls H W)
    (callback : Callback (Nat × H) α) (path : Bytes) :
    (∀ s, Reachable (NewlyMade (InotifyWatcher.construct (track os) path))
        (InUse (InotifyWatcher.workWith logGetc (track os) callback)) s →
      ClosedOnce (InotifyWatcher.destroy (track os) s.self s.world)) ∧
    ∀ s, Reachable (NewlyMade (PollingWatcher.construct (trackPoll pollOs) path))
        (InUse (PollingWatcher.workWith logGetc (trackPoll pollOs) callback)) s →
      (ClosedOnce (PollingWatcher.destroy (trackPoll pollOs) s.self s.world) ↔
        s.self.fp = none) := by
  constructor
  · intro s h
    exact closedOnce_of_destroy (filesHeld_of_reachable os callback h)
  · intro s h
    exact closedOnce_of_poll_destroy (filesHeld_of_poll_reachable pollOs callback h)

end

/-- A `PollingWatcher` is dropped when its file is open, as at a reload. -/
theorem not_files_closed :
    let os := trackPoll (pollKernel (lit "/log") 7)
    let files : Files := ⟨fun _ => lit "a\n", 1, some 0, [], 0, fun _ => none, []⟩
    let callback : Callback (Nat × Handle) Unit := fun _ _ _ => .ok () ()
    ∃ s, Reachable (NewlyMade (PollingWatcher.construct os (lit "/log")))
        (InUse (PollingWatcher.workWith logGetc os callback)) s ∧
      s.world.world.files = files ∧
      (PollingWatcher.destroy os s.self s.world).log =
        [.acquired 0, .used 0, .released 0, .released 0] ∧
      ¬ ClosedOnce (PollingWatcher.destroy os s.self s.world) := by
  intro os files callback
  refine ⟨⟨⟨lit "/log", some ⟨(0, ⟨0, 0, 2⟩), 0⟩, [], ⟨7, 0, 0⟩⟩, (),
    ⟨⟨files, ⟨[], dirWd + 1, []⟩⟩, 1, [.acquired 0, .used 0]⟩⟩,
    .start ⟨⟨files, ⟨[], dirWd + 1, []⟩⟩, rfl⟩, rfl, rfl, ?_⟩
  rintro ⟨hsafe, -⟩
  have hreleased : .released 0 ∈ [Event.acquired 0, .used 0, .released 0] := by decide
  exact absurd hsafe (not_safe_of_release hreleased)

end Blockad.Proofs
