import Blockad.Proofs.Pairing
import Blockad.Proofs.Rotation

/-!
# `Blockad.Proofs.Races`: rotation between the system calls of one `work`

`openFile` calls `fopen` and then `inotify_add_watch`, by path both times. A file that goes
between the two calls makes the second one fail with ENOENT, and `openFile` throws. Here other
processes may act before each system call.

* `racing`: the kernel with a batch of changes before each call.
* `Sound`: the invariant of the watcher in such a world.
* `handleEvent_races`: an event is handled without an exception exactly when its file `Lasts`.
* `rotation_survived`: the runs in which this is always so, and a whole `work`.
-/

set_option autoImplicit false

namespace Blockad.Proofs

open Bytes Prog Runs Watcher InotifyWatcher Monitored

/-! ### Other processes -/

/-- A file system with what other processes do before each of the next system calls. -/
structure Preempted where
  fs : Filesystem
  schedule : Nat → List Change

/-- A change, if it can happen. -/
def attempt (name : Bytes) (fs : Filesystem) (c : Change) : Filesystem :=
  if fs.files.Allows name c then fs.change name c else fs

/-- The changes of a batch, as far as they can happen. -/
def batch (name : Bytes) (fs : Filesystem) (cs : List Change) : Filesystem :=
  cs.foldl (attempt name) fs

/-- The file system as the next system call finds it. -/
def found (name : Bytes) (w : Preempted) : Filesystem := batch name w.fs (w.schedule 0)

/-- A system call after the next batch. -/
def preempt {β : Type} (name : Bytes) (call : EStateM Errno Filesystem β) :
    EStateM Errno Preempted β := fun w =>
  match call (found name w) with
  | .ok b fs => .ok b ⟨fs, fun n => w.schedule (n + 1)⟩
  | .error errno fs => .error errno ⟨fs, fun n => w.schedule (n + 1)⟩

/-- A system call that cannot fail, after the next batch. -/
def preemptVoid (name : Bytes) (call : Filesystem → Filesystem) (w : Preempted) : Preempted :=
  ⟨call (found name w), fun n => w.schedule (n + 1)⟩

/-- The system calls of a watcher of `path` while other processes act. What an open file has to
read depends on its appends only, which may just as well come before the next call. -/
def racing (path : Bytes) (k : Nat) : Syscalls Handle Preempted :=
  let name := cstr (getBaseName path)
  let os := kernel path k
  { inotifyInit := preempt name os.inotifyInit
    inotifyAddWatch := fun ifd p mask => preempt name (os.inotifyAddWatch ifd p mask)
    inotifyRmWatch := fun ifd wd => preempt name (os.inotifyRmWatch ifd wd)
    readEvents := fun ifd => preempt name (os.readEvents ifd)
    close := fun fd => preemptVoid name (os.close fd)
    fcntlGetfl := fun fd => preempt name (os.fcntlGetfl fd)
    fcntlSetfl := fun fd => preempt name (os.fcntlSetfl fd)
    fopen := fun p => preempt name (os.fopen p)
    fclose := fun h => preemptVoid name (os.fclose h)
    seekEnd := fun h => preempt name (os.seekEnd h)
    unread := fun h offset w => os.unread h offset w.fs }

/-! ### The file at the path -/

/-- The files without the history of their closing, which decides nothing. -/
def forget (fs : Files) : Files := { fs with closed := [] }

/-- The files after a change, if it can happen. -/
def filesAttempt (name : Bytes) (fs : Files) (c : Change) : Files :=
  if fs.Allows name c then fs.change c else fs

/-- The files after a batch. -/
def filesBatch (name : Bytes) (fs : Files) (cs : List Change) : Files :=
  cs.foldl (filesAttempt name) fs

/-- The files when `n` calls were preempted. -/
def filesAfter (name : Bytes) (schedule : Nat → List Change) (fs : Files) : Nat → Files
  | 0 => fs
  | n + 1 => filesBatch name (filesAfter name schedule fs n) (schedule n)

/-- The file at the path at system call `n` from now on. -/
def occupantAt (name : Bytes) (w : Preempted) (n : Nat) : Option Nat :=
  (filesAfter name w.schedule w.fs.files (n + 1)).occupant

section
variable (name : Bytes) (fs : Files) (c : Change)

/-- The events play no part in what a change does to the files. -/
theorem forget_change : forget (fs.change c) = (forget fs).change c := by
  obtain ⟨content, freshInode, occupant, elsewhere, period, leftLen, closed⟩ := fs
  cases c <;> cases occupant <;> rfl

/-- Nor in whether it is possible. -/
theorem allows_forget : (forget fs).Allows name c ↔ fs.Allows name c := by
  cases c <;> exact Iff.rfl

/-- A change that is not possible has no effect with or without them. -/
theorem forget_filesAttempt :
    forget (filesAttempt name fs c) = filesAttempt name (forget fs) c := by
  by_cases h : fs.Allows name c
  · rw [filesAttempt, if_pos h, filesAttempt, if_pos ((allows_forget name fs c).mpr h),
      forget_change]
  · rw [filesAttempt, if_neg h, filesAttempt, if_neg (mt (allows_forget name fs c).mp h)]

/-- The same for some changes after each other. -/
theorem forget_filesBatch (cs : List Change) :
    forget (filesBatch name fs cs) = filesBatch name (forget fs) cs := by
  induction cs generalizing fs with
  | nil => rfl
  | cons c cs ih =>
    show forget (filesBatch name (filesAttempt name fs c) cs) = filesBatch name _ cs
    rw [ih, forget_filesAttempt]

/-- The same for the changes before the first calls. -/
theorem forget_filesAfter (schedule : Nat → List Change) (n : Nat) :
    forget (filesAfter name schedule fs n) = filesAfter name schedule (forget fs) n := by
  induction n with
  | zero => rfl
  | succ n ih => rw [filesAfter, forget_filesBatch, ih, filesAfter]

end

/-- What an attempt does to the files is seen in the files alone. -/
theorem files_attempt (name : Bytes) (fs : Filesystem) (c : Change) :
    (attempt name fs c).files = filesAttempt name fs.files c := by
  unfold attempt filesAttempt
  split <;> rfl

/-- It adds no watch. -/
theorem fewer_attempt (name : Bytes) (fs : Filesystem) (c : Change) :
    FewerWatches fs.inotify (attempt name fs c).inotify := by
  unfold attempt
  split
  · exact .change fs.files name c
  · exact .of_eq rfl rfl

/-- The same for some attempts. -/
theorem files_batch (name : Bytes) (fs : Filesystem) (cs : List Change) :
    (batch name fs cs).files = filesBatch name fs.files cs := by
  induction cs generalizing fs with
  | nil => rfl
  | cons c cs ih =>
    show (batch name (attempt name fs c) cs).files = filesBatch name _ cs
    rw [ih, files_attempt]

/-- Some attempts add no watch. -/
theorem fewer_batch (name : Bytes) (fs : Filesystem) (cs : List Change) :
    FewerWatches fs.inotify (batch name fs cs).inotify := by
  induction cs generalizing fs with
  | nil => exact .of_eq rfl rfl
  | cons c cs ih => exact (fewer_attempt name fs c).trans (ih _)

/-- `n` calls later. No call changes the files but for the history. -/
structure Advanced (name : Bytes) (w : Preempted) (n : Nat) (w' : Preempted) : Prop where
  files : forget w'.fs.files = filesAfter name w.schedule (forget w.fs.files) n
  schedule : w'.schedule = fun i => w.schedule (i + n)

namespace Advanced

variable {name : Bytes} {w w' w'' : Preempted} {n : Nat}

/-- No call was made. -/
theorem zero (w : Preempted) : Advanced name w 0 w := ⟨rfl, rfl⟩

/-- One more call. -/
theorem succ (h : Advanced name w n w')
    (hfiles : forget w''.fs.files = forget (found name w').files)
    (hschedule : w''.schedule = fun i => w'.schedule (i + 1)) : Advanced name w (n + 1) w'' := by
  refine ⟨?_, ?_⟩
  · rw [hfiles, found, files_batch, forget_filesBatch, h.files, h.schedule]
    show filesBatch name _ (w.schedule (0 + n)) = _
    rw [Nat.zero_add]
    rfl
  · rw [hschedule, h.schedule]
    funext i
    show w.schedule (i + 1 + n) = w.schedule (i + (n + 1))
    rw [Nat.add_right_comm]
    rfl

/-- What the calls from then on find at the path. -/
theorem occupantAt_eq (h : Advanced name w n w') (m : Nat) :
    occupantAt name w' m = occupantAt name w (m + n) := by
  have hshift (m : Nat) : filesAfter name w'.schedule (forget w'.fs.files) m =
      filesAfter name w.schedule (forget w.fs.files) (m + n) := by
    induction m with
    | zero => rw [filesAfter, h.files, Nat.zero_add]
    | succ m ih => rw [filesAfter, ih, h.schedule, Nat.add_right_comm, filesAfter]
  show (forget (filesAfter name _ _ (m + 1))).occupant = (forget (filesAfter name _ _ _)).occupant
  rw [forget_filesAfter, forget_filesAfter, hshift, Nat.add_right_comm]

end Advanced

/-- What is at the path at the next call. -/
theorem occupant_found (name : Bytes) (w : Preempted) :
    (found name w).files.occupant = occupantAt name w 0 := by
  rw [found, files_batch]
  rfl

/-! ### The operations -/

section
variable {α : Type} {path : Bytes} {k : Nat} {callback : Callback Handle α}
  {s : Call Handle Inotify α Preempted}

/-- The watcher and its watches, without the client and the schedule. -/
def siteOf (s : Call Handle Inotify α Preempted) : Site := ⟨s.self, [], s.world.fs⟩

/-- The invariant: `fp` and `file_wd` go together, and no file has the descriptor of the
directory. -/
structure Sound (path : Bytes) (s : Call Handle Inotify α Preempted) : Prop where
  paired : Paired s.self
  wired : Wired path (siteOf s)

/-- What a system call does that adds no watch. -/
structure Passed (name : Bytes) (w w' : Preempted) : Prop where
  files : forget w'.fs.files = forget (found name w).files
  schedule : w'.schedule = fun i => w.schedule (i + 1)
  fewer : FewerWatches w.fs.inotify w'.fs.inotify

/-- The invariant of a watcher with other descriptors, after some calls. -/
theorem Sound.of_passed {w : Preempted} {self : InotifyWatcher Handle} {client : α}
    (hs : Sound path s) (hpaired : Paired self) (hpath : self.path = s.self.path)
    (hdirWd : self.own.dirWd = s.self.own.dirWd) (hfileWd : self.own.fileWd ≠ dirWd)
    (hw : FewerWatches s.world.fs.inotify w.fs.inotify) : Sound path ⟨self, client, w⟩ :=
  ⟨hpaired, hs.wired.of_fewer hpath hdirWd hfileWd hw⟩

/-- `inotify_rm_watch` succeeds, or the descriptor is no longer valid. -/
theorem rmWatch_cases (path : Bytes) (k : Nat) (ifd wd : Int) (fs : Filesystem) :
    (kernel path k).inotifyRmWatch ifd wd fs =
        .ok () { fs with inotify := fs.inotify.rmWatch wd } ∨
      (kernel path k).inotifyRmWatch ifd wd fs = .error .EINVAL fs := by
  by_cases hmem : fs.inotify.watches.any (·.1 == wd)
  · exact .inl (if_pos hmem)
  · exact .inr (if_neg hmem)

/-- `inotify_rm_watch` may find that the watch is gone. -/
theorem passed_rmWatch {ifd wd : Int} {w w' : Preempted}
    (h : (racing path k).inotifyRmWatch ifd wd w = .ok () w' ∨
      (racing path k).inotifyRmWatch ifd wd w = .error .EINVAL w') :
    Passed (cstr (getBaseName path)) w w' := by
  have hcases := rmWatch_cases path k ifd wd (found (cstr (getBaseName path)) w)
  dsimp only [racing, preempt] at h
  rcases hcases with hcall | hcall
  · rw [hcall] at h
    obtain h | h := h
    · cases h
      exact ⟨rfl, rfl, (fewer_batch _ _ _).trans (.rmWatch _)⟩
    · cases h
  · rw [hcall] at h
    obtain h | h := h
    · cases h
    · cases h
      exact ⟨rfl, rfl, fewer_batch _ _ _⟩

/-- No other error of it is possible. -/
theorem rmWatch_errno {ifd wd : Int} {w w' : Preempted} {errno : Errno}
    (h : (racing path k).inotifyRmWatch ifd wd w = .error errno w') : errno = .EINVAL := by
  have hcases := rmWatch_cases path k ifd wd (found (cstr (getBaseName path)) w)
  dsimp only [racing, preempt] at h
  rcases hcases with hcall | hcall <;> rw [hcall] at h <;> cases h
  rfl

variable (path k) in
/-- `fclose` is one call. -/
theorem passed_fclose (h : Handle) (w : Preempted) :
    Passed (cstr (getBaseName path)) w ((racing path k).fclose h w) := by
  refine ⟨?_, rfl, fewer_batch _ _ _⟩
  show forget ((found _ w).files.close h) = _
  rw [close_eq]
  rfl

/-- The number of calls that `closeFile` makes. -/
def closeCalls (w : InotifyWatcher Handle) : Nat := if w.fp.isSome then 2 else 0

/-- **`closeFile`** never throws, whatever happens between its calls. -/
theorem closeFile_races (hquiet : Quiet callback) (hs : Sound path s) :
    Ends (fun _ s' => Sound path s' ∧ s'.self.fp = none ∧
        Advanced (cstr (getBaseName path)) s.world (closeCalls s.self) s'.world) (fun _ _ => False)
      (closeFile (racing path k) callback s) := by
  refine closeFile_ends (fun hnone => ⟨hs, hnone, ?_⟩) fun f hf => ?_
  · rw [closeCalls, hnone]
    exact .zero _
  have hopen : s.self.fp.isSome := by simp [hf]
  have hwd : 0 ≤ s.self.own.fileWd := hs.paired.fileWd_nonneg hopen
  have hcalls : closeCalls s.self = 2 := if_pos hopen
  have hremove (line : Bytes) (client : α) :
      Ends (fun _ s₂ => Sound path (closed (racing path k) f s₂) ∧
          (closed (racing path k) f s₂).self.fp = none ∧
            Advanced (cstr (getBaseName path)) s.world (closeCalls s.self)
              (closed (racing path k) f s₂).world) (fun _ _ => False)
        (removeWatch (racing path k) ⟨{ s.self with line }, client, s.world⟩) := by
    have hdone {w : Preempted} (hw : Passed (cstr (getBaseName path)) s.world w) :
        Sound path ⟨{ s.self with line, fp := none, own := { s.self.own with fileWd := -1 } },
            client, (racing path k).fclose f.handle w⟩ ∧ (none : Option (File Handle)) = none ∧
          Advanced (cstr (getBaseName path)) s.world (closeCalls s.self)
            ((racing path k).fclose f.handle w) := by
      have hclose := passed_fclose path k f.handle w
      refine ⟨hs.of_passed (.inl ⟨rfl, rfl⟩) rfl rfl (by simp [dirWd])
        (hw.fewer.trans hclose.fewer), rfl, ?_⟩
      rw [hcalls]
      exact ((Advanced.zero _).succ hw.files hw.schedule).succ hclose.files hclose.schedule
    -- `inotify_rm_watch` and `fclose` are the two calls, whatever the first one answers.
    refine removeWatch_ends (fun hneg => absurd hwd (by dsimp only at hneg; omega)) ?_ ?_ ?_
    · exact fun w _ hcall => hdone (passed_rmWatch (.inl hcall))
    · exact fun w _ hcall => hdone (passed_rmWatch (.inr hcall))
    · exact fun errno w hne hcall => hne (rmWatch_errno hcall)
  refine flushLine_ends (fun _ => hremove s.self.line s.client)
    (fun client _ _ => hremove [] client) ?_
  intro h client hcall
  obtain ⟨a, ha⟩ := hquiet s.self.fp s.self.line s.client
  cases ha.symm.trans hcall

variable (path k) in
/-- `fopen` finds what is at the path when it is called. -/
theorem fopen_cases (w : Preempted) :
    (∃ w', (racing path k).fopen (cstr path) w = .error .ENOENT w' ∧
        occupantAt (cstr (getBaseName path)) w 0 = none ∧
          Passed (cstr (getBaseName path)) w w') ∨
      ∃ h w', (racing path k).fopen (cstr path) w = .ok h w' ∧
        (occupantAt (cstr (getBaseName path)) w 0).isSome ∧
          Passed (cstr (getBaseName path)) w w' := by
  have hocc := occupant_found (cstr (getBaseName path)) w
  have hpassed : Passed (cstr (getBaseName path)) w (preemptVoid (cstr (getBaseName path)) id w) :=
    ⟨rfl, rfl, fewer_batch _ _ _⟩
  cases hfile : (found (cstr (getBaseName path)) w).files.occupant with
  | none =>
    refine .inl ⟨preemptVoid (cstr (getBaseName path)) id w, ?_, hocc.symm.trans hfile, hpassed⟩
    simp [racing, preempt, kernel, hfile, preemptVoid]
  | some i =>
    refine .inr ⟨(found (cstr (getBaseName path)) w).files.handle i,
      preemptVoid (cstr (getBaseName path)) id w, ?_, ?_, hpassed⟩
    · simp [racing, preempt, kernel, hfile, preemptVoid]
    · rw [← hocc, hfile]
      rfl

variable (path k) in
/-- `fopen` opens what is at the path when it is called. -/
theorem of_fopen_ok {handle : Handle} {w w' : Preempted}
    (h : (racing path k).fopen (cstr path) w = .ok handle w') :
    (occupantAt (cstr (getBaseName path)) w 0).isSome ∧
      Passed (cstr (getBaseName path)) w w' := by
  rcases fopen_cases path k w with ⟨w₁, hnone, -⟩ | ⟨handle₁, w₁, hok, hocc, hpassed⟩
  · cases hnone.symm.trans h
  · cases hok.symm.trans h
    exact ⟨hocc, hpassed⟩

variable (path k) in
/-- It fails only where nothing is there. -/
theorem of_fopen_error {errno : Errno} {w w' : Preempted}
    (h : (racing path k).fopen (cstr path) w = .error errno w') :
    errno = .ENOENT ∧ occupantAt (cstr (getBaseName path)) w 0 = none ∧
      Passed (cstr (getBaseName path)) w w' := by
  rcases fopen_cases path k w with ⟨w₁, hnone, hocc, hpassed⟩ | ⟨handle, w₁, hok, -⟩
  · cases hnone.symm.trans h
    exact ⟨rfl, hocc, hpassed⟩
  · cases hok.symm.trans h

/-- `inotify_add_watch` finds what is at the path when it is called, and gives it a descriptor
other than that of the directory. -/
theorem addWatch_cases {self : InotifyWatcher Handle} {w : Preempted}
    {mask : List EventKind} (hs : Wired path ⟨self, [], w.fs⟩) :
    (∃ w', (racing path k).inotifyAddWatch self.own.ifd (cstr path) mask w = .error .ENOENT w' ∧
        occupantAt (cstr (getBaseName path)) w 0 = none) ∨
      ∃ wd w', (racing path k).inotifyAddWatch self.own.ifd (cstr path) mask w = .ok wd w' ∧
        (occupantAt (cstr (getBaseName path)) w 0).isSome ∧ dirWd < wd ∧
          Wired path ⟨{ self with own.fileWd := wd }, [], w'.fs⟩ := by
  have hocc := occupant_found (cstr (getBaseName path)) w
  let c : Site := ⟨{ self with fp := none }, [], found (cstr (getBaseName path)) w⟩
  have hc : Wired path c := hs.of_fewer rfl rfl hs.fileWd_ne (fewer_batch _ _ _)
  cases hfile : (found (cstr (getBaseName path)) w).files.occupant with
  | none =>
    refine .inl ⟨preemptVoid (cstr (getBaseName path)) id w, ?_, hocc.symm.trans hfile⟩
    simp [racing, preempt, kernel, hfile, preemptVoid, hs.path_ne]
  | some i =>
    -- The watch is the one that `reopen` adds, so its invariant is known.
    have hreopen := wired_reopen hc
    have heq : reopen c = ⟨{ self with
        fp := some ⟨(found (cstr (getBaseName path)) w).files.handle i, 0⟩
        own.fileWd := (c.world.inotify.addWatch i).1 }, [],
          { c.world with inotify := (c.world.inotify.addWatch i).2 }⟩ := by
      unfold reopen
      dsimp only [c]
      rw [hfile]
    rw [heq] at hreopen
    refine .inr ⟨(c.world.inotify.addWatch i).1,
      preemptVoid (cstr (getBaseName path))
        (fun fs => { fs with inotify := (fs.inotify.addWatch i).2 }) w, ?_, ?_, ?_, ?_⟩
    · simp [racing, preempt, kernel, hfile, preemptVoid, hs.path_ne, c]
    · rw [← hocc, hfile]
      rfl
    · unfold Notifier.addWatch
      split
      · exact hc.lt_watch _ (List.mem_of_find?_eq_some ‹_›)
      · exact hc.lt_nextWd
    · exact ⟨hreopen.path_ne, hreopen.path_eq, hreopen.dirWd_eq, hreopen.fileWd_ne,
        hreopen.lt_nextWd, hreopen.lt_watch⟩

/-- The file that is at the path at call `n` is still there at the next one. -/
def StaysAt (path : Bytes) (w : Preempted) (n : Nat) : Prop :=
  (occupantAt (cstr (getBaseName path)) w n).isSome →
    (occupantAt (cstr (getBaseName path)) w (n + 1)).isSome

/-- **`openFile`** throws exactly if the file is gone again before its watch is added. -/
theorem openFile_races (hs : Sound path s) (hfp : s.self.fp = none) :
    Ends (fun _ s' => Sound path s' ∧ StaysAt path s.world 0)
      (fun _ _ => ¬ StaysAt path s.world 0) (openFile (racing path k) s) := by
  have hpath : s.self.path = path := hs.wired.path_eq
  have hopened {handle : Handle} {w : Preempted}
      (h : (racing path k).fopen (cstr path) s.world = .ok handle w) :
      (occupantAt (cstr (getBaseName path)) s.world 0).isSome ∧ Wired path ⟨s.self, [], w.fs⟩ ∧
        Advanced (cstr (getBaseName path)) s.world 1 w := by
    obtain ⟨hocc, hpassed⟩ := of_fopen_ok path k h
    exact ⟨hocc, hs.wired.of_fewer rfl rfl hs.wired.fileWd_ne hpassed.fewer,
      (Advanced.zero _).succ hpassed.files hpassed.schedule⟩
  refine openFile_ends (fun hsome => by simp [hfp] at hsome) ?_ ?_ ?_ ?_
  · -- There is no file when `fopen` is called.
    intro w _ hcall
    rw [hpath] at hcall
    obtain ⟨-, hocc, hpassed⟩ := of_fopen_error path k hcall
    refine ⟨hs.of_passed hs.paired rfl rfl hs.wired.fileWd_ne hpassed.fewer, ?_⟩
    intro hsome
    simp [hocc] at hsome
  · intro errno w hne hcall
    rw [hpath] at hcall
    exact absurd (of_fopen_error path k hcall).1 hne
  · intro handle w wd w' _ hopen hwatch
    rw [hpath] at hopen hwatch
    obtain ⟨-, hwired, hadvanced⟩ := hopened hopen
    rcases addWatch_cases hwired with ⟨w₂, herror, -⟩ | ⟨wd₂, w₂, hok, hocc, hlt, hwired₂⟩
    · cases herror.symm.trans hwatch
    · cases hok.symm.trans hwatch
      have hnonneg : 0 ≤ wd := by
        simp only [dirWd] at hlt
        omega
      refine ⟨⟨.inr ⟨rfl, hnonneg⟩,
        hwired₂.of_fewer rfl rfl hwired₂.fileWd_ne (.of_eq rfl rfl)⟩, ?_⟩
      intro _
      rwa [← hadvanced.occupantAt_eq 0]
  · intro handle w errno w' _ hopen hwatch
    rw [hpath] at hopen hwatch
    obtain ⟨hthere, hwired, hadvanced⟩ := hopened hopen
    rcases addWatch_cases hwired with ⟨w₂, herror, hocc⟩ | ⟨wd₂, w₂, hok, -⟩
    · -- The file went in between.
      intro hstays
      have hgone := hstays hthere
      rw [← hadvanced.occupantAt_eq 0, hocc] at hgone
      cases hgone
    · cases hok.symm.trans hwatch

/-- **`readLines`** never throws with an open file. -/
theorem readLines_races (hquiet : Quiet callback) (hs : Sound path s) (hfp : s.self.fp.isSome) :
    Ends (fun _ s' => Sound path s' ∧ s'.self.fp.isSome) (fun _ _ => False)
      (readLines (racing path k) callback (closeFile (racing path k) callback) s) := by
  -- Bytes and lines change neither the descriptors nor the watches.
  have hkeep : Preserved callback (fun s' : Call Handle Inotify α Preempted =>
      Sound path s' ∧ s'.self.fp.isSome) (fun _ _ => False) := by
    have hbyte (s : Call Handle Inotify α Preempted) (c : UInt8)
        (hs : Sound path s ∧ s.self.fp.isSome) :
        Sound path { s with self := takeByte c s.self } ∧ (takeByte c s.self).fp.isSome := by
      have hfp : (takeByte c s.self).fp.isSome := by simpa [takeByte] using hs.2
      exact ⟨hs.1.of_passed (.inr ⟨hfp, hs.1.paired.fileWd_nonneg hs.2⟩) rfl rfl
        hs.1.wired.fileWd_ne (.of_eq rfl rfl), hfp⟩
    refine ⟨fun s c _ => hbyte s c, fun s hs => ?_⟩
    obtain ⟨hs', hfp'⟩ := hbyte s nl hs
    obtain ⟨a, ha⟩ := hquiet (takeByte nl s.self).fp (takeByte nl s.self).line s.client
    rw [processLine_of_ok ha]
    exact ⟨hs'.of_passed hs'.paired rfl rfl hs'.wired.fileWd_ne (.of_eq rfl rfl), hfp'⟩
  refine readLines_ends hkeep (fun f s' errno _ herror _ => ?_) ⟨hs, hfp⟩ hfp
  -- No read fails.
  cases herror

/-- The event does not catch the watcher with a file that goes between `fopen` and
`inotify_add_watch`, and is no overflow while no file is open. -/
def Lasts (path : Bytes) (s : Call Handle Inotify α Preempted) (event : InotifyEvent) : Prop :=
  (event.wd = -1 → s.self.fp.isSome) ∧
    (aboutName s.self.own event = true → StaysAt path s.world (closeCalls s.self))

/-- An event of another watch is not about the name. -/
theorem aboutName_of_ne (hs : Sound path s) {event : InotifyEvent} (h : event.wd ≠ dirWd) :
    aboutName s.self.own event = false := by
  have hdirWd : s.self.own.dirWd = dirWd := hs.wired.dirWd_eq
  simp [aboutName, hdirWd, h]

/-- What happens after some calls is what was to happen after them. -/
theorem staysAt_of_advanced {w w' : Preempted} {n : Nat}
    (h : Advanced (cstr (getBaseName path)) w n w') : StaysAt path w' 0 ↔ StaysAt path w n := by
  rw [StaysAt, StaysAt, h.occupantAt_eq 0, h.occupantAt_eq 1, Nat.zero_add, Nat.add_comm 1]

/-- An event of the open file. -/
theorem fileEvent_races (hquiet : Quiet callback) (hs : Sound path s) {event : InotifyEvent}
    (hwd : event.wd = s.self.own.fileWd) (hopen : event.wd = -1 → s.self.fp.isSome) :
    Ends (fun _ s' => Sound path s') (fun _ _ => False)
      (fileEvent (racing path k) callback event s) := by
  refine fileEvent_ends (fun hne => absurd hwd hne) fun _ => ?_
  have hfp : s.self.fp.isSome := by
    by_contra hnone
    exact hnone (hopen (hwd.trans (hs.paired.fileWd_eq hnone)))
  refine (readLines_races hquiet hs hfp).mono (fun _ s₁ hs₁ => ⟨fun _ => ?_, fun _ => hs₁.1⟩)
    fun _ _ => id
  exact (closeFile_races hquiet hs₁.1).mono (fun _ _ h => h.1) fun _ _ => id

/-- An event of the directory. -/
theorem dirEvent_races (hquiet : Quiet callback) (hs : Sound path s) {event : InotifyEvent}
    (habout : aboutName s.self.own event = true) :
    Ends (fun _ s' => Sound path s' ∧ StaysAt path s.world (closeCalls s.self))
      (fun _ _ => ¬ StaysAt path s.world (closeCalls s.self))
      (dirEvent (racing path k) callback event s) := by
  refine dirEvent_ends (fun hno => by simp [habout] at hno) fun _ => ?_
  refine (closeFile_races hquiet hs).mono (fun _ s₁ ⟨hs₁, hnone, hadvanced⟩ => ?_)
    fun _ _ => False.elim
  rw [← staysAt_of_advanced hadvanced]
  refine (openFile_races hs₁ hnone).mono (fun _ s₂ ⟨hs₂, hstays⟩ => ⟨fun hsome => ?_, fun _ => ?_⟩)
    fun _ _ => id
  · exact (readLines_races hquiet hs₂ hsome).mono (fun _ _ h => ⟨h.1, hstays⟩) fun _ _ => False.elim
  · exact ⟨hs₂, hstays⟩

/-- **One event**, for any schedule: it is handled exactly when its file lasts. -/
theorem handleEvent_races (hquiet : Quiet callback) (hs : Sound path s) (event : InotifyEvent) :
    Ends (fun _ s' => Sound path s' ∧ Lasts path s event) (fun _ _ => ¬ Lasts path s event)
      (handleEvent (racing path k) callback event s) := by
  by_cases hopen : event.wd = -1 → s.self.fp.isSome
  · by_cases hwd : event.wd = s.self.own.fileWd
    · have hne : event.wd ≠ dirWd := hwd ▸ hs.wired.fileWd_ne
      -- An event of the file is not one of the directory, which opens files.
      have hlasts : Lasts path s event := by
        refine ⟨hopen, fun habout => ?_⟩
        rw [aboutName_of_ne hs hne] at habout
        cases habout
      refine .bind ((fileEvent_races hquiet hs hwd hopen).mono (fun _ s₁ hs₁ => ?_)
        fun _ _ => False.elim)
      refine dirEvent_ends (fun _ => ⟨hs₁, hlasts⟩) fun habout => ?_
      rw [aboutName_of_ne hs₁ hne] at habout
      cases habout
    · have hfile : Ends (fun _ s₁ => s₁ = s) (fun _ _ => False)
          (fileEvent (racing path k) callback event s) :=
        fileEvent_ends (fun _ => rfl) fun heq => absurd heq hwd
      refine .bind (hfile.mono (fun _ s₁ hs₁ => ?_) fun _ _ => False.elim)
      subst hs₁
      cases habout : aboutName s₁.self.own event with
      | false =>
        refine dirEvent_ends (fun _ => ⟨hs, hopen, fun h => ?_⟩) fun h => ?_
        · simp [habout] at h
        · simp [habout] at h
      | true =>
        refine (dirEvent_races hquiet hs habout).mono (fun _ s' ⟨hs', hstays⟩ => ?_) ?_
        · exact ⟨hs', hopen, fun _ => hstays⟩
        · exact fun _ _ hfail hlasts => hfail (hlasts.2 habout)
  · -- An overflow while no file is open.
    obtain ⟨hwd, hfp⟩ := Classical.not_imp.mp hopen
    rw [handleEvent_undefined hs.paired hwd (by simpa using hfp)]
    exact fun hlasts => hopen hlasts.1

end

/-! ### Runs -/

section
variable {α : Type} (path : Bytes) (callback : Callback Handle α)

/-- A watcher that was constructed, for any schedule and any client. -/
def Launched (s : Call Handle Inotify α Preempted) : Prop :=
  ∃ fs schedule, Unwatched fs ∧ cstr path ≠ cstr (getDirName path) ∧
    construct (racing path 0) path ⟨fs, schedule⟩ = .ok s.self s.world

/-- What the watcher does. -/
inductive Turn where
  | read
  | handled (event : InotifyEvent)

/-- The watcher reads some events, or it handles one. -/
inductive Races :
    Call Handle Inotify α Preempted → Turn → Call Handle Inotify α Preempted → Prop where
  | read {s : Call Handle Inotify α Preempted} (k : Nat) {events : List InotifyEvent}
      {w : Preempted} (h : (racing path k).readEvents s.self.own.ifd s.world = .ok events w) :
      Races s .read { s with world := w }
  | handled {s s' : Call Handle Inotify α Preempted} {k : Nat} {event : InotifyEvent}
      (h : handleEvent (racing path k) callback event s = .ok () s') :
      Races s (.handled event) s'

variable {path callback}

/-- The invariant holds of a new watcher. -/
theorem sound_of_launched {s : Call Handle Inotify α Preempted} (h : Launched path s) :
    Sound path s := by
  obtain ⟨fs, schedule, hfs, hdir, hmade⟩ := h
  have hs : Sound path (⟨s.self, (), s.world⟩ : Call Handle Inotify Unit Preempted) := by
    refine of_construct hmade (fun ifd w₁ wd w₂ hinit hwatch => ?_) fun hs hfp hcall => ?_
    · -- The directory gets the first descriptor.
      have hw₁ : FewerWatches fs.inotify w₁.fs.inotify := by
        cases hinit
        exact fewer_batch _ _ _
      obtain ⟨rfl, hw₂⟩ : wd = dirWd ∧ FewerWatches w₁.fs.inotify w₂.fs.inotify := by
        simp only [racing, preempt, kernel, if_true] at hwatch
        cases hwatch
        exact ⟨rfl, fewer_batch _ _ _⟩
      have hw := hw₁.trans hw₂
      have hs₂ : Sound path (watchingDir (H := Handle) path ifd dirWd w₂) := by
        refine ⟨.inl ⟨rfl, rfl⟩, hdir, rfl, rfl, by simp [siteOf, watchingDir, dirWd], ?_, ?_⟩
        · show dirWd < w₂.fs.inotify.nextWd
          rw [hw.nextWd, hfs.inotify]
          decide
        · intro watch hwatch
          have hnone := hw.watches hwatch
          rw [hfs.inotify] at hnone
          cases hnone
      exact (openFile_races hs₂ rfl).mono (fun _ _ h => h.1) fun _ _ _ => trivial
    · cases hcall
      exact hs.of_passed (.inr ⟨rfl, hs.paired.fileWd_nonneg (by rw [hfp]; rfl)⟩) rfl rfl
        hs.wired.fileWd_ne (fewer_batch _ _ _)
  exact ⟨hs.paired, hs.wired⟩

/-- Reading the events keeps it. -/
theorem sound_of_read {s : Call Handle Inotify α Preempted} {k : Nat}
    {events : List InotifyEvent} {w : Preempted} (hs : Sound path s)
    (h : (racing path k).readEvents s.self.own.ifd s.world = .ok events w) :
    Sound path { s with world := w } := by
  cases h
  exact hs.of_passed hs.paired rfl rfl hs.wired.fileWd_ne
    ((fewer_batch _ _ _).trans (.of_eq rfl rfl))

/-- **One step.** -/
theorem sound_step (hquiet : Quiet callback) {s s' : Call Handle Inotify α Preempted} {t : Turn}
    (hs : Sound path s) (h : Races path callback s t s') : Sound path s' := by
  cases h with
  | read k h => exact sound_of_read hs h
  | handled h => exact ((handleEvent_races hquiet hs _).ok h).1

/-- The condition for the events of one `work`, each of them in its turn. -/
def AllLast (path : Bytes) (callback : Callback Handle α) (k : Nat) :
    List InotifyEvent → Call Handle Inotify α Preempted → Prop
  | [], _ => True
  | event :: events, s => Lasts path s event ∧
    ∀ s', handleEvent (racing path k) callback event s = .ok () s' →
      AllLast path callback k events s'

/-- The loop of `work`. -/
theorem forM_races (hquiet : Quiet callback) {k : Nat} (events : List InotifyEvent)
    {s : Call Handle Inotify α Preempted} (hs : Sound path s) :
    Ends (fun _ s' => Sound path s' ∧ AllLast path callback k events s)
      (fun _ _ => ¬ AllLast path callback k events s)
      (events.forM (handleEvent (racing path k) callback) s) := by
  induction events generalizing s with
  | nil => exact ⟨hs, trivial⟩
  | cons event events ih =>
    rw [List.forM_eq_forM, List.forM_cons]
    have hfirst := handleEvent_races (k := k) hquiet hs event
    cases hrun : handleEvent (racing path k) callback event s with
    | ok u s₁ =>
      obtain ⟨hs₁, hlasts⟩ := hfirst.ok hrun
      rw [bind_of_ok hrun]
      refine (ih hs₁).mono (fun _ s' ⟨hs', hall⟩ => ⟨hs', hlasts, fun s₂ hrun₂ => ?_⟩) ?_
      · cases hrun.symm.trans hrun₂
        exact hall
      -- A later event is the one that is not handled.
      · exact fun _ _ hno hall => hno (hall.2 s₁ hrun)
    | error e s₁ =>
      rw [bind_of_error hrun]
      exact fun hall => hfirst.error hrun hall.1

/-- **Rotation at any moment.** -/
theorem rotation_survived (hquiet : Quiet callback) {s : Call Handle Inotify α Preempted}
    (h : Reachable (Launched path) (Races path callback) s) :
    (s.self.fp.isSome ↔ 0 ≤ s.self.own.fileWd) ∧
    (∀ k event, (∃ s', handleEvent (racing path k) callback event s = .ok () s') ↔
      Lasts path s event) ∧
    ∀ k events w, (racing path k).readEvents s.self.own.ifd s.world = .ok events w →
      ((∃ s', work (racing path k) callback s = .ok () s' ∧
          (s'.self.fp.isSome ↔ 0 ≤ s'.self.own.fileWd)) ↔
        AllLast path callback k events { s with world := w }) := by
  have hs : Sound path s :=
    h.invariant (fun _ => sound_of_launched) fun _ _ _ => sound_step hquiet
  refine ⟨hs.paired.iff, fun k event => ⟨?_, ?_⟩, fun k events w hread => ?_⟩
  · rintro ⟨s', hrun⟩
    exact ((handleEvent_races hquiet hs event).ok hrun).2
  · intro hlasts
    have hends := handleEvent_races (k := k) hquiet hs event
    cases hrun : handleEvent (racing path k) callback event s with
    | ok u s' => exact ⟨s', rfl⟩
    | error e s' => exact absurd hlasts (hends.error hrun)
  · have hends : Ends
        (fun _ s' => Sound path s' ∧ AllLast path callback k events { s with world := w })
        (fun _ _ => ¬ AllLast path callback k events { s with world := w })
        (work (racing path k) callback s) := by
      refine .bind (x := self) (.bind (sys_ends (fun events' w' hread' => ?_)
        fun errno w' herror => ?_))
      · cases hread.symm.trans hread'
        exact forM_races hquiet events (sound_of_read hs hread)
      · cases hread.symm.trans herror
    constructor
    · rintro ⟨s', hrun, -⟩
      exact (hends.ok hrun).2
    · intro hall
      cases hrun : work (racing path k) callback s with
      | ok u s' => exact ⟨s', rfl, (hends.ok hrun).1.paired.iff⟩
      | error e s' => exact absurd hall (hends.error hrun)

end

/-! ### A file that goes again -/

/-- A directory without the file. -/
def emptyDir : Filesystem where
  files :=
    { content := fun _ => [], freshInode := 0, occupant := none, elsewhere := [], period := 0
      leftLen := fun _ => none, closed := [] }
  inotify := ⟨[], dirWd + 1, []⟩

/-- The file comes before the watcher reads its events, and goes before `inotify_add_watch`. -/
def comesAndGoes : Nat → List Change
  | 3 => [.create]
  | 5 => [.unlink false]
  | _ => []

/-- A new watcher of the file that is to come and go. -/
def watchingEmptyDir : Call Handle Inotify Unit Preempted :=
  ⟨⟨lit "/log", none, [], ⟨lit "log", lit "/", 3, -1, dirWd⟩⟩, (),
    ⟨emptyDir, fun n => comesAndGoes (n + 3)⟩⟩

/-- A watcher can be launched in a directory without the file. -/
theorem launched_watchingEmptyDir : Launched (lit "/log") watchingEmptyDir :=
  ⟨emptyDir, comesAndGoes, ⟨nofun, nofun, rfl, rfl, rfl, rfl⟩, by decide, rfl⟩

/-- An event about a file that is there for a moment only. -/
theorem rotation_survived_watchingEmptyDir :
    (∃ s', handleEvent (racing (lit "/log") 1) (fun _ _ _ => .ok () ())
        ⟨dirWd, .create, lit "log"⟩ watchingEmptyDir = .ok () s') ↔
      Lasts (lit "/log") watchingEmptyDir ⟨dirWd, .create, lit "log"⟩ :=
  have hquiet : Quiet fun (_ : Option (File Handle)) _ (_ : Unit) => .ok () () :=
    fun _ _ _ => ⟨(), rfl⟩
  (rotation_survived hquiet (.start launched_watchingEmptyDir)).2.1 1 ⟨dirWd, .create, lit "log"⟩

/-- `work` throws. -/
theorem not_rotation_survived :
    Reachable (Launched (lit "/log")) (Races (lit "/log") fun _ _ _ => .ok () ()) watchingEmptyDir ∧
      ∃ s', work (racing (lit "/log") 1) (fun _ _ _ => .ok () ()) watchingEmptyDir =
        .error (.thrown (.watcherSystemError (lit "inotify_add_watch for /log") (some .ENOENT)))
          s' :=
  ⟨.start launched_watchingEmptyDir, _, rfl⟩

end Blockad.Proofs
