import Blockad.Proofs.Rotation
import Blockad.Proofs.LineSplitting

/-!
# `Blockad.Proofs.Polling`: what a `PollingWatcher` does at one poll

With the file system of `Blockad.Model.Filesystem`, no system call of a `PollingWatcher` fails but
for a missing file. `openFile` and the comparison of the identities have plain results then.

* `poll_openFile_eq`, `isReplaced_eq`: the operations.
* `poll_work_ends`: a poll closes a file that was replaced, opens the file at the path if none is
  open, and reads.
-/

set_option autoImplicit false

namespace Blockad.Proofs

open Bytes Prog Runs Watcher PollingWatcher

variable {α : Type} {path : Bytes} {now : Int} {callback : Callback Handle α}
  {s : Call Handle Polling α Filesystem}

/-- The watcher when it has opened the file at the path, if there is one and none is open. -/
def pollOpened (s : Call Handle Polling α Filesystem) : Call Handle Polling α Filesystem :=
  match s.self.fp, s.world.files.occupant with
  | none, some i =>
    { s with self := { s.self with
        fp := some ⟨s.world.files.handle i, 0⟩
        own := { s.self.own with dev := 0, ino := i } } }
  | _, _ => s

/-- The identity of the file at the path is not the one that was recorded. -/
def replaced (s : Call Handle Polling α Filesystem) : Bool :=
  match s.world.files.occupant with
  | none => true
  | some i => (i : Int) != s.self.own.ino || 0 != s.self.own.dev

/-- The time of the next poll. -/
def tick (now : Int) (s : Call Handle Polling α Filesystem) : Call Handle Polling α Filesystem :=
  { s with self := { s.self with own.next := now + 1 } }

/-- The watcher when its file was closed. -/
def pollClosed (path : Bytes) (now : Int) (f : File Handle)
    (s : Call Handle Polling α Filesystem) : Call Handle Polling α Filesystem :=
  ⟨{ s.self with fp := none, own := { s.self.own with dev := -1, ino := -1 } }, s.client,
    (pollKernel path now).fclose f.handle s.world⟩

/-- `openFile` has the effect `pollOpened`. -/
theorem poll_openFile_eq (hpath : s.self.path = path) :
    openFile (pollKernel path now) s = .ok () (pollOpened s) := by
  obtain ⟨⟨p, fp, line, own⟩, client, fs⟩ := s
  obtain rfl : p = path := hpath
  cases fp with
  | some f => rfl
  | none =>
    unfold pollOpened
    dsimp only
    show (sys (some <$> (kernel p 0).fopen (cstr p)) _ >>= _) _ = _
    cases hocc : fs.files.occupant with
    | none =>
      have hopen : (kernel p 0).fopen (cstr p) fs = .error .ENOENT fs := by
        refine (if_pos rfl).trans ?_
        rw [hocc]
      have hsys {fail : Errno → Prog Handle Polling α Filesystem (Option Handle)}
          (hfail : fail .ENOENT ⟨⟨p, none, line, own⟩, client, fs⟩
            = .ok none ⟨⟨p, none, line, own⟩, client, fs⟩) :
          sys (some <$> (kernel p 0).fopen (cstr p)) fail ⟨⟨p, none, line, own⟩, client, fs⟩
            = .ok none ⟨⟨p, none, line, own⟩, client, fs⟩ :=
        (sys_of_error (map_of_error hopen)).trans hfail
      exact Eq.trans (bind_of_ok (hsys rfl)) rfl
    | some i =>
      have hopen : (kernel p 0).fopen (cstr p) fs = .ok (fs.files.handle i) fs := by
        refine (if_pos rfl).trans ?_
        rw [hocc]
      exact Eq.trans (bind_of_ok (sys_of_ok (map_of_ok hopen))) rfl

/-- The watcher before its constructor opens the file. -/
def unpolled (path : Bytes) (now : Int) (fs : Filesystem) : Call Handle Polling Unit Filesystem :=
  ⟨⟨path, none, [], ⟨now, -1, -1⟩⟩, (), fs⟩

/-- **The constructor**: the file is opened as `openFile` does it, at its start. -/
theorem poll_construct_eq (path : Bytes) (now : Int) (fs : Filesystem) :
    construct (pollKernel path now) path fs =
      .ok (pollOpened (unpolled path now fs)).self (pollOpened (unpolled path now fs)).world := by
  have hopen : openFile (pollKernel path now) (unpolled path now fs) =
      .ok () (pollOpened (unpolled path now fs)) := poll_openFile_eq rfl
  unfold construct
  dsimp only
  rw [show openFile (pollKernel path now) ⟨⟨path, none, [],
    ⟨(pollKernel path now).time fs, -1, -1⟩⟩, (), fs⟩ = _ from hopen]

/-- The comparison does not change the watcher. -/
theorem isReplaced_eq (hpath : s.self.path = path) :
    isReplaced (pollKernel path now) s = .ok (replaced s) s := by
  obtain ⟨⟨p, fp, line, own⟩, client, fs⟩ := s
  obtain rfl : p = path := hpath
  unfold replaced
  dsimp only
  show (sys (some <$> (pollKernel p now).stat (cstr p)) _ >>= _) _ = _
  cases hocc : fs.files.occupant with
  | none =>
    have hstat : (pollKernel p now).stat (cstr p) fs = .error .ENOENT fs := by
      refine (if_pos rfl).trans ?_
      rw [hocc]
    have hsys {fail : Errno → Prog Handle Polling α Filesystem (Option Stat)}
        (hfail : fail .ENOENT ⟨⟨p, fp, line, own⟩, client, fs⟩
          = .ok none ⟨⟨p, fp, line, own⟩, client, fs⟩) :
        sys (some <$> (pollKernel p now).stat (cstr p)) fail ⟨⟨p, fp, line, own⟩, client, fs⟩
          = .ok none ⟨⟨p, fp, line, own⟩, client, fs⟩ :=
      (sys_of_error (map_of_error hstat)).trans hfail
    exact Eq.trans (bind_of_ok (hsys rfl)) rfl
  | some i =>
    have hstat : (pollKernel p now).stat (cstr p) fs = .ok ⟨0, i⟩ fs := by
      refine (if_pos rfl).trans ?_
      rw [hocc]
    exact Eq.trans (bind_of_ok (sys_of_ok (map_of_ok hstat))) rfl

/-- The end of a poll: open and read. -/
def readOpened (path : Bytes) (now : Int) (callback : Callback Handle α) :
    Prog Handle Polling α Filesystem Unit := fun s =>
  if (pollOpened s).self.fp.isSome then
    readLines (kernel path 0) callback (closeFile (pollKernel path now) callback) (pollOpened s)
  else .ok () (pollOpened s)

/-- The end of a poll, as it is written. -/
def openAndRead (path : Bytes) (now : Int) (callback : Callback Handle α) :
    Prog Handle Polling α Filesystem Unit := do
  if (← self).fp.isNone then
    openFile (pollKernel path now)
  if (← self).fp.isSome then
    readLines (kernel path 0) callback (closeFile (pollKernel path now) callback)

/-- After `openFile`, the file that is there is read. -/
theorem openAndRead_eq (hpath : s.self.path = path) :
    openAndRead path now callback s = readOpened path now callback s := by
  have hread (s : Call Handle Polling α Filesystem) :
      (self >>= fun w => if w.fp.isSome then
        readLines (kernel path 0) callback (closeFile (pollKernel path now) callback)
        else pure ()) s =
      if s.self.fp.isSome then
        readLines (kernel path 0) callback (closeFile (pollKernel path now) callback) s
      else .ok () s := by
    show (if s.self.fp.isSome then _ else _ : Prog Handle Polling α Filesystem Unit) s = _
    split <;> rfl
  cases hfp : s.self.fp with
  | some f =>
    have hsame : pollOpened s = s := by rw [pollOpened, hfp]
    rw [readOpened, hsame, ← hread]
    obtain ⟨⟨p, fp, line, own⟩, client, fs⟩ := s
    cases hfp
    rfl
  | none =>
    rw [readOpened, ← hread]
    have hrun : openAndRead path now callback s = (openFile (pollKernel path now) >>= fun _ =>
        self >>= fun w => if w.fp.isSome then
          readLines (kernel path 0) callback (closeFile (pollKernel path now) callback)
          else pure ()) s := by
      obtain ⟨⟨p, fp, line, own⟩, client, fs⟩ := s
      cases hfp
      rfl
    rw [hrun, bind_of_ok (poll_openFile_eq hpath)]

section
variable {post : Unit → Call Handle Polling α Filesystem → Prop}
  {fail : Halt → Call Handle Polling α Filesystem → Prop}

/-- `closeFile`, by whether a file is open and has a line. -/
theorem poll_closeFile_ends (hnone : s.self.fp = none → post () s)
    (hempty : ∀ f, s.self.fp = some f → s.self.line = [] → post () (pollClosed path now f s))
    (hline : ∀ f, s.self.fp = some f → s.self.line ≠ [] → Ends (fun _ s' =>
      post () (pollClosed path now f { s' with self := clearLine s'.self })) fail
        (processLine callback s)) :
    Ends post fail (closeFile (pollKernel path now) callback s) := by
  obtain ⟨⟨p, fp, line, own⟩, client, fs⟩ := s
  cases fp with
  | none => exact hnone rfl
  | some f =>
    cases line with
    | nil => exact hempty f rfl rfl
    | cons c rest => exact .bind (x := Watcher.processLine callback) (hline f rfl (by simp))

/-- **One poll.** -/
theorem poll_work_ends (hpath : s.self.path = path)
    (hkeep : s.self.fp = none ∨ replaced s = false →
      Ends post fail (readOpened path now callback (tick now s)))
    (hreplaced : s.self.fp.isSome → replaced s = true → Ends (fun _ s' => s'.self.path = path ∧
      Ends post fail (readOpened path now callback s')) fail
        (closeFile (pollKernel path now) callback (tick now s))) :
    Ends post fail (work (pollKernel path now) callback s) := by
  have hrun : work (pollKernel path now) callback s = (self >>= fun w =>
      if w.fp.isSome then isReplaced (pollKernel path now) >>= fun other =>
        if other then closeFile (pollKernel path now) callback >>= fun _ =>
          openAndRead path now callback
        else openAndRead path now callback
      else openAndRead path now callback) (tick now s) := rfl
  rw [hrun]
  refine .bind (x := self) (.ite (fun hopen => ?_) fun hnone => ?_)
  · rw [bind_of_ok (isReplaced_eq (s := tick now s) hpath)]
    refine .ite (fun hother => .bind ?_) fun hsame => ?_
    · refine (hreplaced hopen hother).mono (fun _ s' ⟨hpath', h⟩ => ?_) fun _ _ => id
      rwa [openAndRead_eq hpath']
    · rw [openAndRead_eq (s := tick now s) hpath]
      exact hkeep (.inr (Bool.eq_false_iff.mpr hsame))
  · rw [openAndRead_eq (s := tick now s) hpath]
    exact hkeep (.inl (by simpa [tick] using hnone))

end

end Blockad.Proofs
