import Blockad.Lib.Runs
import Blockad.Model.Filesystem
import Blockad.Proofs.Operations
import Mathlib.Logic.Relation

/-!
# `Blockad.Proofs.Rotation`: what an `InotifyWatcher` does with one event

With a file system that fails no call, the operations of the watcher have plain results:
`readAll`, `shut` and `reopen`. `handled_cases` says what one event can do with them, and every
invariant of the runs is proved from that.

* `readLines_eq`, `closeFile_eq`, `openFile_eq`: the operations.
* `Wired`: the watch descriptors of the directory and of the file differ.
* `handled_cases`: the cases of one event.
* `steps_of_work`: a whole `work` is a run of these steps.
-/

set_option autoImplicit false

namespace Blockad.Proofs

open Bytes Prog Runs Watcher InotifyWatcher Monitored

/-- A watcher with its calls so far and its environment. -/
abbrev Site := Call Handle Inotify (List Delivery) Filesystem

/-! ### Reading -/

/-- An open file while it is read, with the pending line and the calls so far. -/
structure Reading where
  file : File Handle
  line : Bytes
  log : List Delivery

namespace Reading

/-- The next byte. -/
def byte (r : Reading) (b : UInt8) : Reading :=
  let file := { r.file with offset := r.file.offset + 1 }
  if b == nl then ⟨file, [], r.log ++ [⟨file, r.line ++ [b]⟩]⟩ else ⟨file, r.line ++ [b], r.log⟩

/-- A byte that is no newline is added to the line. -/
theorem byte_of_ne {b : UInt8} (h : b ≠ nl) (r : Reading) :
    r.byte b = ⟨{ r.file with offset := r.file.offset + 1 }, r.line ++ [b], r.log⟩ := by
  simp [byte, h]

/-- A newline delivers the line with it. -/
theorem byte_nl (r : Reading) :
    r.byte nl = ⟨{ r.file with offset := r.file.offset + 1 }, [],
      r.log ++ [⟨{ r.file with offset := r.file.offset + 1 }, r.line ++ [nl]⟩]⟩ := by
  simp [byte]

/-- Each byte moves the offset by one. -/
@[simp] theorem file_byte (r : Reading) (b : UInt8) :
    (r.byte b).file = { r.file with offset := r.file.offset + 1 } := by
  unfold byte
  split <;> rfl

/-- The offset moves by the number of bytes. -/
theorem file_foldl (bytes : Bytes) (r : Reading) :
    (bytes.foldl byte r).file = { r.file with offset := r.file.offset + bytes.length } := by
  induction bytes generalizing r with
  | nil => rfl
  | cons b rest ih =>
    rw [List.foldl_cons, ih, file_byte, List.length_cons]
    simp only [Nat.add_assoc, Nat.add_comm 1]

/-- What each byte of a file preserves is preserved when the file is read to its end. -/
theorem foldl_invariant (inv : Reading → Prop) (content : Bytes)
    (hstep : ∀ r b, inv r → content[r.file.offset]? = some b → inv (r.byte b)) {r : Reading}
    (hr : inv r) : inv ((content.drop r.file.offset).foldl byte r) := by
  generalize hbytes : content.drop r.file.offset = bytes
  induction bytes generalizing r with
  | nil => exact hr
  | cons b rest ih =>
    have hhead : content[r.file.offset]? = some b := by
      rw [← List.head?_drop, hbytes, List.head?_cons]
    refine ih (hstep r b hr hhead) ?_
    rw [file_byte, ← List.tail_drop, hbytes, List.tail_cons]

end Reading

/-- The site when the file is read. -/
def withReading (c : Site) (r : Reading) : Site :=
  ⟨{ c.self with fp := some r.file, line := r.line }, r.log, c.world⟩

/-- The effect of `readLines`. -/
def readAll (c : Site) : Site :=
  match c.self.fp with
  | none => c
  | some f => withReading c
      (((c.world.files.content f.handle.inode).drop f.offset).foldl Reading.byte
        ⟨f, c.self.line, c.client⟩)

/-- The file is read byte by byte. -/
theorem readAll_invariant {inv : Site → Prop} {c : Site}
    (hstep : ∀ r b, inv (withReading c r) →
      (c.world.files.content r.file.handle.inode)[r.file.offset]? = some b →
        inv (withReading c (r.byte b))) (h : inv c) : inv (readAll c) := by
  cases hfp : c.self.fp with
  | none => rwa [readAll, hfp]
  | some f =>
    have hsame : withReading c ⟨f, c.self.line, c.client⟩ = c := by
      obtain ⟨⟨p, fp, line, own⟩, log, fs⟩ := c
      cases hfp
      rfl
    have hread := Reading.foldl_invariant
      (fun r => inv (withReading c r) ∧ r.file.handle = f.handle)
      (c.world.files.content f.handle.inode) (r := ⟨f, c.self.line, c.client⟩)
      (fun r b hr hb => ⟨hstep r b hr.1 (by rwa [hr.2]), by rw [Reading.file_byte]; exact hr.2⟩)
      ⟨hsame.symm ▸ h, rfl⟩
    rw [readAll, hfp]
    exact hread.1

/-- The effect of `removeWatch`. -/
def unwatch (c : Site) : Site :=
  if c.self.own.fileWd ≥ 0 then
    { self := { c.self with own.fileWd := -1 }
      client := c.client
      world := { c.world with inotify := c.world.inotify.rmWatch c.self.own.fileWd } }
  else c

/-- A watch is not about the path of the watcher. -/
@[simp] theorem path_unwatch (c : Site) : (unwatch c).self.path = c.self.path := by
  unfold unwatch; split <;> rfl

/-- The effect of `closeFile`. -/
def shut (c : Site) : Site :=
  match c.self.fp with
  | none => c
  | some f =>
    { self := { (unwatch c).self with fp := none, line := [] }
      client := if c.self.line.isEmpty then c.client else c.client ++ [⟨f, c.self.line⟩]
      world := { (unwatch c).world with files := c.world.files.close f.handle } }

/-- The effect of `openFile`. -/
def reopen {α : Type} (c : Call Handle Inotify α Filesystem) : Call Handle Inotify α Filesystem :=
  match c.self.fp, c.world.files.occupant with
  | none, some i =>
    { self := { c.self with
        fp := some ⟨c.world.files.handle i, 0⟩
        own := { c.self.own with fileWd := (c.world.inotify.addWatch i).1 } }
      client := c.client
      world := { c.world with inotify := (c.world.inotify.addWatch i).2 } }
  | _, _ => c

/-! ### The operations -/

section
variable {path : Bytes} {k : Nat}

-- No read fails, so `readBytes` never gets to the `closeFile` it is given.
/-- By induction on the bytes: no read fails, and the client never throws. -/
theorem readBytes_record (close : Prog Handle Inotify (List Delivery) Filesystem Unit) (c : Site)
    (r : Reading) (bytes : Bytes) :
    readBytes record close none bytes (withReading c r)
      = .ok () (withReading c (bytes.foldl Reading.byte r)) := by
  induction bytes generalizing r with
  | nil => rfl
  | cons b rest ih =>
    rw [List.foldl_cons, ← ih]
    by_cases hb : b = nl
    · subst hb
      rw [Reading.byte_nl]
      rfl
    · rw [Reading.byte_of_ne hb]
      have hne : (b == nl) = false := by simpa using hb
      show (assign (takeByte b) >>= fun _ => if b == nl then _ else
        readBytes record close none rest) _ = _
      rw [hne]
      rfl

/-- `readLines` reads the open file to its end. -/
theorem readLines_eq (close : Prog Handle Inotify (List Delivery) Filesystem Unit) {c : Site}
    (h : c.self.fp.isSome) : readLines (kernel path k) record close c = .ok () (readAll c) := by
  obtain ⟨⟨p, fp, line, own⟩, log, fs⟩ := c
  cases fp with
  | none => cases h
  | some f =>
    exact readBytes_record close ⟨⟨p, some f, line, own⟩, log, fs⟩ ⟨f, line, log⟩ _

/-- `removeWatch` has the effect `unwatch`. -/
theorem removeWatch_eq (c : Site) : removeWatch (kernel path k) c = .ok () (unwatch c) := by
  have hrun : removeWatch (kernel path k) c
      = (if c.self.own.fileWd ≥ 0 then
          sys ((kernel path k).inotifyRmWatch c.self.own.ifd c.self.own.fileWd) (fun errno => do
            assignOwn fun own => { own with fileWd := -1 }
            if errno ≠ .EINVAL then
              systemError (lit "inotify_rm_watch for " ++ (← self).path) errno)
            >>= fun _ => assignOwn fun own => { own with fileWd := -1 }
        else pure ()) c := rfl
  rw [hrun, unwatch]
  by_cases hwd : c.self.own.fileWd ≥ 0
  · rw [if_pos hwd, if_pos hwd]
    by_cases hmem : c.world.inotify.watches.any (·.1 == c.self.own.fileWd)
    · have hcall : (kernel path k).inotifyRmWatch c.self.own.ifd c.self.own.fileWd c.world
          = .ok () { c.world with inotify := c.world.inotify.rmWatch c.self.own.fileWd } :=
        if_pos hmem
      rw [bind_of_ok (sys_of_ok hcall)]
      rfl
    · -- The watch is gone already: `EINVAL`, which only gets a warning.
      have hcall : (kernel path k).inotifyRmWatch c.self.own.ifd c.self.own.fileWd c.world
          = .error .EINVAL c.world := if_neg hmem
      have hsame : c.world.inotify.rmWatch c.self.own.fileWd = c.world.inotify := if_neg hmem
      have hsys {fail : Errno → Prog Handle Inotify (List Delivery) Filesystem Unit}
          (hfail : fail .EINVAL c = .ok () { c with self := { c.self with own.fileWd := -1 } }) :
          sys ((kernel path k).inotifyRmWatch c.self.own.ifd c.self.own.fileWd) fail c
            = .ok () { c with self := { c.self with own.fileWd := -1 } } :=
        (sys_of_error hcall).trans hfail
      rw [hsame]
      exact Eq.trans (bind_of_ok (hsys rfl)) rfl
  · rw [if_neg hwd, if_neg hwd]
    rfl

/-- `closeFile` has the effect `shut`. -/
theorem closeFile_eq (c : Site) : closeFile (kernel path k) record c = .ok () (shut c) := by
  cases hfp : c.self.fp with
  | none =>
    obtain ⟨⟨p, fp, line, own⟩, log, fs⟩ := c
    cases hfp
    rfl
  | some f =>
    -- The pending line is delivered before the watch is removed.
    have hflush : flushLine record c = .ok ()
        { c with
          self := { c.self with line := [] }
          client := if c.self.line.isEmpty then c.client else c.client ++ [⟨f, c.self.line⟩] } := by
      obtain ⟨⟨p, fp, line, own⟩, log, fs⟩ := c
      cases hfp
      cases line <;> rfl
    have hrun : closeFile (kernel path k) record c
        = (flushLine record >>= fun _ => removeWatch (kernel path k) >>= fun _ =>
            sysVoid ((kernel path k).fclose f.handle) >>= fun _ =>
              assign fun w => { w with fp := none }) c := by
      obtain ⟨⟨p, fp, line, own⟩, log, fs⟩ := c
      cases hfp
      rfl
    rw [hrun, bind_of_ok hflush, bind_of_ok (removeWatch_eq _), shut, hfp]
    unfold unwatch
    dsimp only
    split <;> rfl

/-- `openFile` has the effect `reopen`. -/
theorem openFile_eq {α : Type} {c : Call Handle Inotify α Filesystem} (hpath : c.self.path = path)
    (hdir : cstr path ≠ cstr (getDirName path)) :
    openFile (kernel path k) c = .ok () (reopen c) := by
  obtain ⟨⟨p, fp, line, own⟩, log, fs⟩ := c
  obtain rfl : p = path := hpath
  cases fp with
  | some f => rfl
  | none =>
    unfold reopen
    dsimp only
    show (sys (some <$> (kernel p k).fopen (cstr p)) _ >>= _) _ = _
    cases hocc : fs.files.occupant with
    | none =>
      have hopen : (kernel p k).fopen (cstr p) fs = .error .ENOENT fs := by
        refine (if_pos rfl).trans ?_
        rw [hocc]
      have hsys {fail : Errno → Prog Handle Inotify α Filesystem (Option Handle)}
          (hfail : fail .ENOENT ⟨⟨p, none, line, own⟩, log, fs⟩
            = .ok none ⟨⟨p, none, line, own⟩, log, fs⟩) :
          sys (some <$> (kernel p k).fopen (cstr p)) fail ⟨⟨p, none, line, own⟩, log, fs⟩
            = .ok none ⟨⟨p, none, line, own⟩, log, fs⟩ :=
        (sys_of_error (map_of_error hopen)).trans hfail
      exact Eq.trans (bind_of_ok (hsys rfl)) rfl
    | some i =>
      have hopen : (kernel p k).fopen (cstr p) fs = .ok (fs.files.handle i) fs := by
        refine (if_pos rfl).trans ?_
        rw [hocc]
      have hwatch : (kernel p k).inotifyAddWatch own.ifd (cstr p) [.modify, .moveSelf, .deleteSelf]
          fs = .ok (fs.inotify.addWatch i).1 { fs with inotify := (fs.inotify.addWatch i).2 } := by
        refine (if_neg hdir).trans ((if_pos rfl).trans ?_)
        rw [hocc]
      refine Eq.trans (bind_of_ok (sys_of_ok (map_of_ok hopen))) ?_
      show (sys ((kernel p k).inotifyAddWatch own.ifd (cstr p) _) _ >>= _)
        ⟨⟨p, some ⟨fs.files.handle i, 0⟩, line, own⟩, log, fs⟩ = _
      exact Eq.trans (bind_of_ok (sys_of_ok hwatch)) rfl

end

/-! ### One event -/

section
variable (c : Site)

/-- Reading keeps the path. -/
@[simp] theorem path_readAll : (readAll c).self.path = c.self.path := by
  unfold readAll; split <;> rfl

/-- Reading keeps the descriptors. -/
@[simp] theorem own_readAll : (readAll c).self.own = c.self.own := by
  unfold readAll; split <;> rfl

/-- Reading does not change the world. -/
@[simp] theorem world_readAll : (readAll c).world = c.world := by
  unfold readAll; split <;> rfl

/-- Closing keeps the path. -/
@[simp] theorem path_shut : (shut c).self.path = c.self.path := by
  unfold shut; split <;> simp [path_unwatch]

/-- Closing keeps the watch of the directory. -/
@[simp] theorem dirWd_shut : (shut c).self.own.dirWd = c.self.own.dirWd := by
  unfold shut unwatch; split <;> [rfl; (split <;> rfl)]

/-- After closing, no file is open. -/
@[simp] theorem fp_shut : (shut c).self.fp = none := by
  unfold shut; split
  · assumption
  · rfl

/-- Opening keeps the watch of the directory. -/
@[simp] theorem dirWd_reopen : (reopen c).self.own.dirWd = c.self.own.dirWd := by
  unfold reopen; split <;> rfl

end

section
variable (fs : Files) (h : Handle)

/-- `fclose` leaves the files as they are, all but the history. -/
theorem close_eq : fs.close h = { fs with closed := (fs.close h).closed } := by
  unfold Files.close; split <;> rfl

/-- The period of a file goes on after its close. -/
@[simp] theorem period_close : (fs.close h).period = fs.period := by rw [close_eq]

end

/-- Closing changes the set of closed files only. -/
theorem files_shut (c : Site) : (shut c).world.files
    = { c.world.files with closed := (shut c).world.files.closed } := by
  unfold shut
  split
  · rfl
  · exact close_eq _ _

section
variable {α : Type} (c : Call Handle Inotify α Filesystem)

/-- Opening changes no file. -/
@[simp] theorem files_reopen : (reopen c).world.files = c.world.files := by
  unfold reopen; split <;> rfl

/-- Opening delivers nothing. -/
@[simp] theorem client_reopen : (reopen c).client = c.client := by
  unfold reopen; split <;> rfl

/-- Opening keeps the line. -/
@[simp] theorem line_reopen : (reopen c).self.line = c.self.line := by
  unfold reopen; split <;> rfl

variable {c}

/-- The file at the path is open then, and nothing of it was read. -/
theorem fp_reopen (h : c.self.fp = none) : (reopen c).self.fp
    = c.world.files.occupant.map fun i => ⟨c.world.files.handle i, 0⟩ := by
  unfold reopen
  rw [h]
  cases c.world.files.occupant with
  | none => exact h
  | some i => rfl

end

/-- The watch descriptors of the directory and of files are told apart, and so are their
paths. -/
structure Wired (path : Bytes) (c : Site) : Prop where
  path_ne : cstr path ≠ cstr (getDirName path)
  path_eq : c.self.path = path
  dirWd_eq : c.self.own.dirWd = dirWd
  fileWd_ne : c.self.own.fileWd ≠ dirWd
  lt_nextWd : dirWd < c.world.inotify.nextWd
  lt_watch : ∀ watch ∈ c.world.inotify.watches, dirWd < watch.1

/-- What an event of the file does, as one equation. -/
theorem fileEvent_eq {path : Bytes} {k : Nat} {event : InotifyEvent} {c : Site} :
    fileEvent (kernel path k) record event c =
      if event.wd == c.self.own.fileWd then
        (readLines (kernel path k) record (closeFile (kernel path k) record) >>= fun _ =>
          if event.mask == .moveSelf || event.mask == .deleteSelf then
            closeFile (kernel path k) record
          else pure ()) c
      else .ok () c := by
  show (if event.wd == c.self.own.fileWd then _ else _ : Prog _ _ _ _ _) c = _
  split <;> rfl

/-- What an event of the directory does, as one equation. -/
theorem dirEvent_eq {path : Bytes} {k : Nat} {event : InotifyEvent} {c : Site} :
    dirEvent (kernel path k) record event c =
      if aboutName c.self.own event then
        (closeFile (kernel path k) record >>= fun _ => openFile (kernel path k) >>= fun _ =>
          self >>= fun w => if w.fp.isSome then
            readLines (kernel path k) record (closeFile (kernel path k) record) else pure ()) c
      else .ok () c := by
  show (if aboutName c.self.own event then _ else _ : Prog _ _ _ _ _) c = _
  split <;> rfl

/-- **What one event can do**: nothing; read the open file, and close it after that; or, if it
is about the name of the file, close the open file, open the one at the path and read it. -/
theorem handled_cases {path : Bytes} {k : Nat} {event : InotifyEvent} {c c' : Site}
    (hc : Wired path c) (h : handleEvent (kernel path k) record event c = .ok () c') :
    c' = c ∨ (c.self.fp.isSome ∧ (c' = readAll c ∨ c' = shut (readAll c))) ∨
      (aboutName c.self.own event = true ∧ c' = readAll (reopen (shut c))) := by
  change (fileEvent (kernel path k) record event >>= fun _ =>
    dirEvent (kernel path k) record event) c = _ at h
  obtain ⟨_, c₁, hfile, hdir⟩ := bind_eq_ok_iff.mp h
  rw [fileEvent_eq] at hfile
  rw [dirEvent_eq] at hdir
  by_cases hwd : event.wd = c.self.own.fileWd
  · rw [if_pos (by simpa using hwd)] at hfile
    obtain ⟨_, c₂, hread, hrest⟩ := bind_eq_ok_iff.mp hfile
    have hopen : c.self.fp.isSome := by
      -- `readLines` needs an open file.
      by_contra hnone
      obtain ⟨⟨p, fp, line, own⟩, log, fs⟩ := c
      obtain rfl : fp = none := by simpa using hnone
      cases hread
    rw [readLines_eq _ hopen] at hread
    cases hread
    have hc₁ : c₁ = readAll c ∨ c₁ = shut (readAll c) := by
      split at hrest
      · rw [closeFile_eq] at hrest
        cases hrest
        exact .inr rfl
      · cases hrest
        exact .inl rfl
    -- It is no event of the directory then.
    have hother : aboutName c₁.self.own event = false := by
      have hdirWd : c₁.self.own.dirWd = dirWd := by
        rcases hc₁ with rfl | rfl <;> simp [dirWd_shut, hc.dirWd_eq]
      have hne : event.wd ≠ dirWd := hwd ▸ hc.fileWd_ne
      simp [aboutName, hdirWd, hne]
    rw [if_neg (by simp [hother])] at hdir
    cases hdir
    exact .inr (.inl ⟨hopen, hc₁⟩)
  · rw [if_neg (by simpa using hwd)] at hfile
    cases hfile
    split at hdir
    · rename_i habout
      -- Close, open what is there now, and read that if there is anything.
      obtain ⟨_, c₂, hclose, hdir⟩ := bind_eq_ok_iff.mp hdir
      rw [closeFile_eq] at hclose
      cases hclose
      obtain ⟨_, c₃, hopen, hdir⟩ := bind_eq_ok_iff.mp hdir
      rw [openFile_eq (by simp [path_shut, hc.path_eq]) hc.path_ne] at hopen
      cases hopen
      refine .inr (.inr ⟨habout, ?_⟩)
      change (if (reopen (shut c)).self.fp.isSome then _ else _ : Prog _ _ _ _ _) _ = _ at hdir
      split at hdir
      · rename_i hsome
        rw [readLines_eq _ hsome] at hdir
        cases hdir
        rfl
      · rename_i hnone
        cases hdir
        have hfp : (reopen (shut c)).self.fp = none := by simpa using hnone
        simp [readAll, hfp]
    · cases hdir
      exact .inl rfl

/-! ### The watch descriptors -/

section
variable (n : Notifier) (event : InotifyEvent) (i : Nat)

/-- An event in the queue changes no watch. -/
@[simp] theorem watches_notify : (n.notify event).watches = n.watches := by
  unfold Notifier.notify; split <;> rfl

/-- It takes no descriptor either. -/
@[simp] theorem nextWd_notify : (n.notify event).nextWd = n.nextWd := by
  unfold Notifier.notify; split <;> rfl

/-- Events of a file do not touch the watches. -/
theorem notifySelf_cases (mask : EventKind) :
    (n.notifySelf i mask).watches = n.watches ∧ (n.notifySelf i mask).nextWd = n.nextWd := by
  unfold Notifier.notifySelf
  generalize n.watches.filter (·.2 == i) = watches
  induction watches generalizing n with
  | nil => exact ⟨rfl, rfl⟩
  | cons watch watches ih =>
    have h := ih (n.notify ⟨watch.1, mask, []⟩)
    rwa [watches_notify, nextWd_notify] at h

/-- The same for an event of a file that is watched. -/
@[simp] theorem watches_notifySelf (mask : EventKind) :
    (n.notifySelf i mask).watches = n.watches := (notifySelf_cases n i mask).1

/-- It takes no descriptor either. -/
@[simp] theorem nextWd_notifySelf (mask : EventKind) :
    (n.notifySelf i mask).nextWd = n.nextWd := (notifySelf_cases n i mask).2

end

/-- The second notifier has no watches that the first one does not have. -/
structure FewerWatches (n n' : Notifier) : Prop where
  nextWd : n'.nextWd = n.nextWd
  watches : n'.watches ⊆ n.watches

namespace FewerWatches

variable {n n' n'' : Notifier}

/-- The same watches are no more watches. -/
theorem of_eq (hnext : n'.nextWd = n.nextWd) (hwatches : n'.watches = n.watches) :
    FewerWatches n n' := ⟨hnext, by rw [hwatches]; exact List.Subset.refl _⟩

/-- Fewer watches than fewer watches. -/
theorem trans (h : FewerWatches n n') (h' : FewerWatches n' n'') : FewerWatches n n'' :=
  ⟨h'.nextWd.trans h.nextWd, List.Subset.trans h'.watches h.watches⟩

/-- An event in the queue adds no watch. -/
theorem notify (event : InotifyEvent) : FewerWatches n (n.notify event) := of_eq (by simp) (by simp)

/-- Neither does one of a file that is watched. -/
theorem notifySelf (i : Nat) (mask : EventKind) : FewerWatches n (n.notifySelf i mask) :=
  of_eq (by simp) (by simp)

/-- The end of a file removes its watch. -/
theorem destroy (i : Nat) : FewerWatches n (n.destroy i) :=
  ⟨by simp [Notifier.destroy], List.filter_subset_self _⟩

/-- A step that is only taken for a file that exists. -/
theorem elim {α : Type} {o : Option α} {f : α → Notifier} (h : ∀ a, FewerWatches n (f a)) :
    FewerWatches n (o.elim n f) := by
  cases o with
  | none => exact of_eq rfl rfl
  | some a => exact h a

/-- A step that is only taken under a condition. -/
theorem ite {b : Bool} (h : FewerWatches n n') : FewerWatches n (if b then n' else n) := by
  split
  · exact h
  · exact of_eq rfl rfl

/-- No change adds a watch. -/
theorem change (fs : Files) (name : Bytes) (c : Change) : FewerWatches n (n.change fs name c) := by
  cases c with
  | append i _ => exact notifySelf i _
  | createElsewhere _ => exact of_eq rfl rfl
  | create => exact notify _
  | renameAway dest =>
    exact ((notify _).trans (elim fun _ => notify _)).trans (elim fun _ => notifySelf _ _)
  | renameOnto i source early =>
    exact (((ite (elim fun _ => destroy _)).trans (elim fun _ => notify _)).trans (notify _)).trans
      (notifySelf _ _)
  | unlink early => exact (ite (elim fun _ => destroy _)).trans (notify _)
  | destroy i => exact destroy i
  | notice event => exact notify event

/-- `inotify_rm_watch` removes its watch. -/
theorem rmWatch (wd : Int) : FewerWatches n (n.rmWatch wd) := by
  unfold Notifier.rmWatch
  split
  · exact ⟨by simp, by simp⟩
  · exact of_eq rfl rfl

end FewerWatches

/-! ### The wiring of the watcher -/

section
variable {path : Bytes} {c c' : Site}

/-- What keeps the descriptors of the watcher and adds no watch keeps the wiring. -/
theorem Wired.of_fewer (h : Wired path c) (hpath : c'.self.path = c.self.path)
    (hdirWd : c'.self.own.dirWd = c.self.own.dirWd) (hfileWd : c'.self.own.fileWd ≠ dirWd)
    (hfewer : FewerWatches c.world.inotify c'.world.inotify) : Wired path c' where
  path_ne := h.path_ne
  path_eq := hpath.trans h.path_eq
  dirWd_eq := hdirWd.trans h.dirWd_eq
  fileWd_ne := hfileWd
  lt_nextWd := hfewer.nextWd ▸ h.lt_nextWd
  lt_watch watch hwatch := h.lt_watch watch (hfewer.watches hwatch)

/-- Reading keeps the descriptors apart. -/
theorem wired_readAll (h : Wired path c) : Wired path (readAll c) :=
  h.of_fewer (path_readAll c) (by simp) (by simp [h.fileWd_ne]) (.of_eq (by simp) (by simp))

/-- Closing keeps them apart. -/
theorem wired_shut (h : Wired path c) : Wired path (shut c) := by
  refine h.of_fewer (path_shut c) (dirWd_shut c) ?_ ?_
  · unfold shut unwatch
    split
    · exact h.fileWd_ne
    · split
      · simp [dirWd]
      · exact h.fileWd_ne
  · unfold shut unwatch
    split
    · exact .of_eq rfl rfl
    · split
      · exact .rmWatch _
      · exact .of_eq rfl rfl

/-- Opening takes a new descriptor, which is not that of the directory. -/
theorem wired_reopen (h : Wired path c) : Wired path (reopen c) := by
  unfold reopen
  split
  · rename_i i hfp hocc
    unfold Notifier.addWatch
    split
    · rename_i watch hfind
      -- The file is watched already, under its old descriptor.
      have hlt := h.lt_watch watch (List.mem_of_find?_eq_some hfind)
      exact ⟨h.path_ne, h.path_eq, h.dirWd_eq, Int.ne_of_gt hlt, h.lt_nextWd, h.lt_watch⟩
    · refine ⟨h.path_ne, h.path_eq, h.dirWd_eq, Int.ne_of_gt h.lt_nextWd, ?_, ?_⟩
      · have hlt := h.lt_nextWd
        dsimp only
        omega
      · intro watch hwatch
        rcases List.mem_cons.mp hwatch with rfl | hwatch
        · exact h.lt_nextWd
        · exact h.lt_watch watch hwatch
  · exact h

end

/-! ### Runs -/

/-- The watcher before its constructor opens the file. -/
def unopened (path : Bytes) (fs : Filesystem) : Call Handle Inotify Unit Filesystem :=
  ⟨⟨path, none, [], ⟨getBaseName path, getDirName path, 3, -1, dirWd⟩⟩, (), fs⟩

/-- The end of the file, where the constructor goes. -/
def atEnd (fs : Filesystem) (f : File Handle) : File Handle :=
  { f with offset := (fs.files.content f.handle.inode).length }

/-- No call of the constructor fails, and the initial content is skipped. -/
theorem start_eq {path : Bytes} {k : Nat} {fs : Filesystem}
    (hdir : cstr path ≠ cstr (getDirName path)) :
    start (kernel path k)
        ⟨⟨path, none, [], ⟨getBaseName path, getDirName path, -1, -1, -1⟩⟩, (), fs⟩
      = .ok () { reopen (unopened path fs) with
          self := { (reopen (unopened path fs)).self with
            fp := (reopen (unopened path fs)).self.fp.map (atEnd fs) } } := by
  have hwatch : (kernel path k).inotifyAddWatch 3 (cstr (getDirName path))
      [.create, .delete, .movedFrom, .movedTo] fs = .ok dirWd fs := if_pos rfl
  show (sys ((kernel path k).inotifyAddWatch 3 (cstr (getDirName path)) _) _ >>= _)
    (⟨⟨path, none, [], ⟨getBaseName path, getDirName path, 3, -1, -1⟩⟩, (), fs⟩ :
      Call Handle Inotify Unit Filesystem) = _
  refine Eq.trans (bind_of_ok (sys_of_ok hwatch)) ?_
  show (openFile (kernel path k) >>= _) (unopened path fs) = _
  refine Eq.trans (bind_of_ok (openFile_eq rfl hdir)) ?_
  unfold reopen
  cases hocc : fs.files.occupant with
  | none => simp only [unopened, hocc]; rfl
  | some i => simp only [unopened, hocc]; rfl

/-- **The constructor**: the file is opened as `openFile` does it, and passed over. -/
theorem constructed_cases {path : Bytes} {s : Monitored} (h : Constructed path s) :
    ∃ fs, Unwatched fs ∧ cstr path ≠ cstr (getDirName path) ∧ s.batch = [] ∧ s.call.client = [] ∧
      s.call.world = (reopen (unopened path fs)).world ∧
      s.call.self = { (reopen (unopened path fs)).self with
        fp := (reopen (unopened path fs)).self.fp.map (atEnd fs) } := by
  obtain ⟨fs, watcher, fs', hfs, hdir, hconstruct, rfl⟩ := h
  unfold construct at hconstruct
  dsimp only at hconstruct
  rw [start_eq hdir] at hconstruct
  cases hconstruct
  exact ⟨fs, hfs, hdir, rfl, rfl, rfl, rfl⟩

/-- The descriptors of a new watcher are apart. -/
theorem wired_of_constructed {path : Bytes} {s : Monitored} (h : Constructed path s) :
    Wired path s.call := by
  obtain ⟨fs, hfs, hdir, -, -, hworld, hself⟩ := constructed_cases h
  have hopened : Wired path
      ⟨(reopen (unopened path fs)).self, [], (reopen (unopened path fs)).world⟩ := by
    have h₀ : Wired path ⟨(unopened path fs).self, [], fs⟩ :=
      ⟨hdir, rfl, rfl, by simp [unopened, dirWd], by simp [hfs.inotify, dirWd],
        by simp [hfs.inotify]⟩
    have h₁ := wired_reopen h₀
    unfold reopen at h₁ ⊢
    dsimp only [unopened] at h₁ ⊢
    cases hocc : fs.files.occupant with
    | none => rw [hocc] at h₁; exact h₁
    | some i => rw [hocc] at h₁; exact h₁
  refine hopened.of_fewer ?_ ?_ ?_ ?_
  · simp [hself]
  · simp [hself]
  · simpa [hself] using hopened.fileWd_ne
  · simp only [hworld]
    exact .of_eq rfl rfl

/-- **One step.** They stay apart. -/
theorem wired_step {path : Bytes} {s s' : Monitored} {a : Action} (hs : Wired path s.call)
    (h : Transition path s a s') : Wired path s'.call := by
  cases h with
  | changed _ => exact hs.of_fewer rfl rfl hs.fileWd_ne (.change _ _ _)
  | read _ _ _ => exact hs.of_fewer rfl rfl hs.fileWd_ne (.of_eq rfl rfl)
  | handled _ hrun =>
    rcases handled_cases hs hrun with rfl | ⟨-, rfl | rfl⟩ | ⟨-, rfl⟩
    · exact hs
    · exact wired_readAll hs
    · exact wired_shut (wired_readAll hs)
    · exact wired_readAll (wired_reopen (wired_shut hs))

/-- The condition holds whenever an event of the directory about the name comes up. -/
def WhenAboutName (cond : Site → Prop) (s : Monitored) : Action → Prop
  | .handled => ∀ event ∈ s.batch.head?, aboutName s.call.self.own event = true → cond s.call
  | .changed _ | .read _ => True

instance {cond : Site → Prop} [DecidablePred cond] (s : Monitored) (a : Action) :
    Decidable (WhenAboutName cond s a) :=
  match a with
  | .handled => inferInstanceAs
    (Decidable (∀ event ∈ s.batch.head?, aboutName s.call.self.own event = true → cond s.call))
  | .changed _ | .read _ => inferInstanceAs (Decidable True)

/-- The handling of the events that were read is a run. -/
theorem steps_of_forM {path : Bytes} {k : Nat} {events : List InotifyEvent} {call call' : Site}
    (h : events.forM (handleEvent (kernel path k) record) call = .ok () call') :
    Relation.ReflTransGen (fun s s' => ∃ a, Transition path s a s') ⟨call, events⟩ ⟨call', []⟩ := by
  induction events generalizing call with
  | nil =>
    cases h
    exact .refl
  | cons event events ih =>
    obtain ⟨_, call₁, hfirst, hrest⟩ := bind_eq_ok_iff.mp h
    exact .head ⟨.handled, .handled rfl hfirst⟩ (ih hrest)

/-- **A `work` that reads `k` events is a run of the steps.** -/
theorem steps_of_work {path : Bytes} {k : Nat} {call call' : Site} (hpos : 0 < k)
    (hle : k ≤ call.world.inotify.queue.length)
    (h : work (kernel path k) record call = .ok () call') :
    Relation.ReflTransGen (fun s s' => ∃ a, Transition path s a s') ⟨call, []⟩ ⟨call', []⟩ := by
  obtain ⟨events, call₁, hread, hhandle⟩ := bind_eq_ok_iff.mp h
  cases hread
  exact .head ⟨.read k, .read rfl hpos hle⟩ (steps_of_forM hhandle)

/-! ### Given runs -/

instance (fs : Files) (name : Bytes) (c : Change) : Decidable (fs.Allows name c) :=
  match c with
  | .append i _ => inferInstanceAs (Decidable (i < fs.freshInode))
  | .createElsewhere _ => inferInstanceAs (Decidable True)
  | .create => inferInstanceAs (Decidable (fs.occupant = none))
  | .renameAway dest => inferInstanceAs (Decidable (fs.occupant.isSome ∧ dest ≠ some name))
  | .renameOnto i source _ => inferInstanceAs (Decidable (i ∈ fs.elsewhere ∧ source ≠ some name))
  | .unlink _ => inferInstanceAs (Decidable fs.occupant.isSome)
  | .destroy i => inferInstanceAs
    (Decidable (i < fs.freshInode ∧ fs.occupant ≠ some i ∧ i ∉ fs.elsewhere))
  | .notice event => inferInstanceAs (Decidable (event.wd = dirWd ∧ event.name ≠ name))

/-- The state after an action, if it can happen. -/
def exec (path : Bytes) (s : Monitored) : Action → Option Monitored
  | .changed c =>
    if s.call.world.files.Allows (cstr (getBaseName path)) c then
      some { s with call.world := s.call.world.change (cstr (getBaseName path)) c }
    else none
  | .read k =>
    let queue := s.call.world.inotify.queue
    if s.batch = [] ∧ 0 < k ∧ k ≤ queue.length then
      some ⟨{ s.call with world.inotify.queue := queue.drop k }, queue.take k⟩
    else none
  | .handled =>
    match s.batch with
    | [] => none
    | event :: rest =>
      match handleEvent (kernel path 0) record event s.call with
      | .ok () call => some ⟨call, rest⟩
      | .error _ _ => none

/-- An executed action is a step. -/
theorem step_of_exec {path : Bytes} {s s' : Monitored} {a : Action} (h : exec path s a = some s') :
    Transition path s a s' := by
  cases a with
  | changed c =>
    unfold exec at h
    dsimp only at h
    split at h <;> cases h
    exact .changed ‹_›
  | read k =>
    unfold exec at h
    dsimp only at h
    split at h <;> cases h
    rename_i hk
    exact .read hk.1 hk.2.1 hk.2.2
  | handled =>
    unfold exec at h
    dsimp only at h
    split at h
    · cases h
    · rename_i hbatch
      split at h <;> cases h
      exact .handled hbatch ‹_›

section
variable {path : Bytes} {cond : Monitored → Action → Prop} [∀ s a, Decidable (cond s a)]

variable (path cond) in
/-- The state after some actions that meet the condition. -/
def execAll : Monitored → List Action → Option Monitored
  | s, [] => some s
  | s, a :: as => if cond s a then (exec path s a).bind fun s => execAll s as else none

/-- Executed actions stay in the states that are reached. -/
theorem reachable_of_execAll {s s' : Monitored} {as : List Action}
    (hs : Reachable (Constructed path) (Guarded (Transition path) cond) s)
    (h : execAll path cond s as = some s') :
    Reachable (Constructed path) (Guarded (Transition path) cond) s' := by
  induction as generalizing s with
  | nil =>
    cases h
    exact hs
  | cons a as ih =>
    rw [execAll] at h
    split at h
    · obtain ⟨s₁, hfirst, hrest⟩ := Option.bind_eq_some_iff.mp h
      exact ih (.next a hs ⟨‹_›, step_of_exec hfirst⟩) hrest
    · cases h

end

/-- A file system with one file, at the watched path. -/
def oneFile : Filesystem where
  files :=
    { content := fun _ => [], freshInode := 1, occupant := some 0, elsewhere := [], period := 0
      leftLen := fun _ => none, closed := [] }
  inotify := ⟨[], dirWd + 1, []⟩

/-- A watcher of that file. -/
def watchingOneFile : Monitored :=
  ⟨⟨{ (reopen (unopened (lit "/log") oneFile)).self with
      fp := (reopen (unopened (lit "/log") oneFile)).self.fp.map (atEnd oneFile) }, [],
    (reopen (unopened (lit "/log") oneFile)).world⟩, []⟩

/-- No file of `oneFile` is watched. -/
theorem unwatched_oneFile : Unwatched oneFile := by
  refine ⟨?_, nofun, rfl, rfl, rfl, rfl⟩
  rintro i ⟨⟩
  exact ⟨Nat.one_pos, List.not_mem_nil⟩

/-- A watcher can start there. -/
theorem constructed_watchingOneFile : Constructed (lit "/log") watchingOneFile :=
  ⟨oneFile, _, _, unwatched_oneFile, by decide, rfl, rfl⟩

end Blockad.Proofs
