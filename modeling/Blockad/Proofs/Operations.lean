import Blockad.Proofs.Watcher

/-!
# `Blockad.Proofs.Operations`: the operations of an `InotifyWatcher`, for any kernel

One rule for each operation of the watcher, over arbitrary system calls and any client. A rule
has one premise for each way that the system calls of the operation can end.

* `flushLine_ends`, `removeWatch_ends`, `closeFile_ends`: closing the file.
* `openFile_ends`: opening it.
* `readBytes_ends`, `readLines_ends`: reading it, for what each byte preserves.
* `fileEvent_ends`, `dirEvent_ends`: the two parts of `work`, for one event.
* `of_construct`: the constructor, which opens the file after it watches the directory.
-/

set_option autoImplicit false

namespace Blockad.Proofs

open Bytes Prog Watcher InotifyWatcher

/-! ### Reading -/

section
variable {H ω α W : Type} {callback : Callback H α} {closeFile : Prog H ω α W Unit}
  {inv : Call H ω α W → Prop} {fail : Halt → Call H ω α W → Prop}

/-- The callback does not throw. -/
def Quiet (callback : Callback H α) : Prop := ∀ fp text a, ∃ a', callback fp text a = .ok () a'

/-- What is preserved by each byte of a line, and by the delivery of the line at its end. -/
structure Preserved (callback : Callback H α) (inv : Call H ω α W → Prop)
    (fail : Halt → Call H ω α W → Prop) : Prop where
  byte : ∀ s c, c ≠ nl → inv s → inv { s with self := takeByte c s.self }
  line : ∀ s, inv s → Ends (fun _ s' => inv { s' with self := clearLine s'.self }) fail
    (processLine callback { s with self := takeByte nl s.self })

/-- A read error closes the file. -/
theorem readBytes_ends (h : Preserved callback inv fail) (error : Option Errno) (bytes : Bytes)
    (herror : ∀ s errno, error = some errno → inv s → Ends (fun _ s' => fail
      (.thrown (.watcherIOError (lit "reading " ++ s'.self.path) errno)) s') fail (closeFile s))
    {s : Call H ω α W} (hs : inv s) :
    Ends (fun _ => inv) fail (readBytes callback closeFile error bytes s) := by
  induction bytes generalizing s with
  | nil =>
    rw [readBytes_nil]
    cases error with
    | none => exact hs
    | some errno => exact .bind ((herror s errno rfl hs).mono (fun _ _ => id) fun _ _ => id)
  | cons c rest ih =>
    rw [readBytes_cons]
    refine .bind (.ite (x := _) (fun hc => .bind ?_) fun hc => ?_)
    · obtain rfl : c = nl := by simpa using hc
      exact (h.line s hs).mono (fun _ s' hs' => .bind (ih hs')) fun _ _ => id
    · exact ih (h.byte s c (by simpa using hc) hs)

/-- `readLines`, from what holds after each byte and each line. -/
theorem readLines_ends {os : Syscalls H W} (h : Preserved callback inv fail) {s : Call H ω α W}
    (herror : ∀ f s' errno, s.self.fp = some f →
      (os.unread f.handle f.offset s.world).2 = some errno → inv s' → Ends (fun _ s'' => fail
        (.thrown (.watcherIOError (lit "reading " ++ s''.self.path) errno)) s'') fail
          (closeFile s'))
    (hs : inv s) (hfp : s.self.fp.isSome) :
    Ends (fun _ => inv) fail (readLines os callback closeFile s) := by
  obtain ⟨f, hf⟩ := Option.isSome_iff_exists.mp hfp
  have hrun : readLines os callback closeFile s = readBytes callback closeFile
      (os.unread f.handle f.offset s.world).2 (os.unread f.handle f.offset s.world).1 s := by
    obtain ⟨⟨p, fp, line, own⟩, client, w⟩ := s
    cases hf
    rfl
  rw [hrun]
  exact readBytes_ends h _ _ (fun s' errno => herror f s' errno hf) hs

end

/-! ### Closing and opening -/

section
variable {H α W : Type} {os : Syscalls H W} {callback : Callback H α}
  {post : Unit → Call H Inotify α W → Prop} {fail : Halt → Call H Inotify α W → Prop}
  {s : Call H Inotify α W}

/-- The watcher has no pending line any more. -/
def flushed (s : Call H Inotify α W) (client : α) : Call H Inotify α W :=
  ⟨{ s.self with line := [] }, client, s.world⟩

/-- The watcher has no watch of its file any more. -/
def unwatched (s : Call H Inotify α W) (world : W) : Call H Inotify α W :=
  ⟨{ s.self with own.fileWd := -1 }, s.client, world⟩

/-- `flushLine`, by whether there is a line. -/
theorem flushLine_ends (hempty : s.self.line = [] → post () s)
    (hok : ∀ client, s.self.line ≠ [] →
      callback s.self.fp s.self.line s.client = .ok () client → post () (flushed s client))
    (hfail : ∀ h client, callback s.self.fp s.self.line s.client = .error h client →
      fail h { s with client }) : Ends post fail (flushLine callback s) := by
  obtain ⟨⟨p, fp, line, own⟩, client, w⟩ := s
  cases line with
  | nil => exact hempty rfl
  | cons c rest =>
    refine .bind (x := Watcher.processLine callback) ?_
    unfold Watcher.processLine
    cases hcall : callback fp (c :: rest) client with
    | ok u client' => exact hok client' (by simp) hcall
    | error h client' => exact hfail h client' hcall

/-- `removeWatch`, by whether there is a watch and how its removal ends. -/
theorem removeWatch_ends (hnone : s.self.own.fileWd < 0 → post () s)
    (hok : ∀ world, 0 ≤ s.self.own.fileWd →
      os.inotifyRmWatch s.self.own.ifd s.self.own.fileWd s.world = .ok () world →
        post () (unwatched s world))
    (hgone : ∀ world, 0 ≤ s.self.own.fileWd →
      os.inotifyRmWatch s.self.own.ifd s.self.own.fileWd s.world = .error .EINVAL world →
        post () (unwatched s world))
    (hfail : ∀ errno world, errno ≠ .EINVAL →
      os.inotifyRmWatch s.self.own.ifd s.self.own.fileWd s.world = .error errno world →
        fail (.thrown (.watcherSystemError (lit "inotify_rm_watch for " ++ s.self.path)
          (some errno))) (unwatched s world)) : Ends post fail (removeWatch os s) := by
  have hrun : removeWatch os s = (if s.self.own.fileWd ≥ 0 then
      sys (os.inotifyRmWatch s.self.own.ifd s.self.own.fileWd) (fun errno => do
        assignOwn fun own => { own with fileWd := -1 }
        if errno ≠ .EINVAL then
          systemError (lit "inotify_rm_watch for " ++ (← self).path) errno)
        >>= fun _ => assignOwn fun own => { own with fileWd := -1 }
      else pure ()) s := rfl
  rw [hrun]
  refine .ite (fun hwd => .bind (sys_ends (fun _ world => hok world hwd) ?_)) fun hwd =>
    hnone (by omega)
  intro errno world hcall
  -- `file_wd` is cleared in both cases, and EINVAL only says that the watch was gone.
  by_cases herrno : errno = .EINVAL
  · subst herrno
    exact hgone world hwd hcall
  · refine .bind (x := assignOwn _) ?_
    show Ends _ _ ((if errno ≠ Errno.EINVAL then (_ : Prog H Inotify α W Unit) else _) _)
    rw [if_pos herrno]
    exact hfail errno world herrno hcall

/-- The watcher when its file was closed. -/
def closed (os : Syscalls H W) (f : File H) (s : Call H Inotify α W) : Call H Inotify α W :=
  ⟨{ s.self with fp := none }, s.client, os.fclose f.handle s.world⟩

/-- `closeFile`, from its parts. -/
theorem closeFile_ends (hnone : s.self.fp = none → post () s)
    (hsome : ∀ f, s.self.fp = some f →
      Ends (fun _ s₁ => Ends (fun _ s₂ => post () (closed os f s₂)) fail (removeWatch os s₁)) fail
        (flushLine callback s)) :
    Ends post fail (closeFile os callback s) := by
  obtain ⟨⟨p, fp, line, own⟩, client, w⟩ := s
  cases fp with
  | none => exact hnone rfl
  | some f =>
    refine .bind (x := flushLine callback) ((hsome f rfl).mono (fun _ s₁ h => ?_) fun _ _ => id)
    exact .bind (x := removeWatch os) (h.mono (fun _ _ => id) fun _ _ => id)

/-- The watcher when its file was opened. -/
def opened (s : Call H Inotify α W) (handle : H) (world : W) : Call H Inotify α W :=
  ⟨{ s.self with fp := some ⟨handle, 0⟩ }, s.client, world⟩

/-- `openFile`, by whether a file is open, and how its two calls end. -/
theorem openFile_ends (hopen : s.self.fp.isSome → post () s)
    (hmissing : ∀ world, s.self.fp = none → os.fopen (cstr s.self.path) s.world =
      .error .ENOENT world → post () { s with world })
    (hfail : ∀ errno world, errno ≠ .ENOENT → os.fopen (cstr s.self.path) s.world =
      .error errno world →
        fail (.thrown (.watcherIOError (lit "opening " ++ s.self.path) errno)) { s with world })
    (hok : ∀ handle world wd world', s.self.fp = none →
      os.fopen (cstr s.self.path) s.world = .ok handle world →
        os.inotifyAddWatch s.self.own.ifd (cstr s.self.path) [.modify, .moveSelf, .deleteSelf]
          world = .ok wd world' →
            post () ⟨{ (opened s handle world).self with own.fileWd := wd }, s.client, world'⟩)
    (hwatch : ∀ handle world errno world', s.self.fp = none →
      os.fopen (cstr s.self.path) s.world = .ok handle world →
        os.inotifyAddWatch s.self.own.ifd (cstr s.self.path) [.modify, .moveSelf, .deleteSelf]
          world = .error errno world' →
            fail (.thrown (.watcherSystemError (lit "inotify_add_watch for " ++ s.self.path)
              (some errno))) (opened s handle world')) : Ends post fail (openFile os s) := by
  obtain ⟨⟨p, fp, line, own⟩, client, w⟩ := s
  cases fp with
  | some f => exact hopen rfl
  | none =>
    refine .bind (x := sys (some <$> os.fopen (cstr p)) _) (sys_ends ?_ ?_)
    · intro fp world hcall
      cases hfopen : os.fopen (cstr p) w with
      | error errno world' =>
        rw [map_of_error hfopen] at hcall
        cases hcall
      | ok handle world' =>
        rw [map_of_ok hfopen] at hcall
        cases hcall
        refine .bind (x := sys (os.inotifyAddWatch _ _ _) _) (sys_ends ?_ ?_)
        · intro wd world' hwd
          exact hok handle world wd world' rfl hfopen hwd
        · intro errno world' hwd
          exact hwatch handle world errno world' rfl hfopen hwd
    · intro errno world hcall
      have hfopen : os.fopen (cstr p) w = .error errno world := by
        cases hfopen : os.fopen (cstr p) w with
        | error errno' world' =>
          rw [map_of_error hfopen] at hcall
          cases hcall
          rfl
        | ok handle world' =>
          rw [map_of_ok hfopen] at hcall
          cases hcall
      -- A missing file is the one failure of `fopen` that is none of the watcher's.
      by_cases herrno : errno = .ENOENT
      · subst herrno
        exact hmissing world rfl hfopen
      · show Ends _ _ ((if errno ≠ Errno.ENOENT then (_ : Prog H Inotify α W (Option H)) else _) _)
        rw [if_pos herrno]
        exact hfail errno world herrno hfopen

/-! ### Events -/

/-- `fileEvent`, by whether the event is about the file. -/
theorem fileEvent_ends {event : InotifyEvent} (hother : event.wd ≠ s.self.own.fileWd → post () s)
    (hread : event.wd = s.self.own.fileWd → Ends (fun _ s₁ =>
      (event.mask = .moveSelf ∨ event.mask = .deleteSelf →
        Ends post fail (closeFile os callback s₁)) ∧
      (¬ (event.mask = .moveSelf ∨ event.mask = .deleteSelf) → post () s₁)) fail
        (readLines os callback (closeFile os callback) s)) :
    Ends post fail (fileEvent os callback event s) := by
  have hrun : fileEvent os callback event s = (if event.wd == s.self.own.fileWd then
      readLines os callback (closeFile os callback) >>= fun _ =>
        if event.mask == .moveSelf || event.mask == .deleteSelf then closeFile os callback
        else pure ()
      else pure ()) s := rfl
  rw [hrun]
  refine .ite (fun hwd => .bind ?_) fun hwd => hother (by simpa using hwd)
  refine (hread (by simpa using hwd)).mono (fun _ s₁ h => ?_) fun _ _ => id
  exact .ite (fun hmask => h.1 (by simpa using hmask)) fun hmask => h.2 (by simpa using hmask)

/-- The event is one of the directory, about the name of the file. -/
def aboutName (own : Inotify) (event : InotifyEvent) : Bool :=
  event.wd == own.dirWd && !event.name.isEmpty && event.name == cstr own.base

/-- `dirEvent`, by whether the event is about the name of the file. -/
theorem dirEvent_ends {event : InotifyEvent}
    (hother : aboutName s.self.own event = false → post () s)
    (habout : aboutName s.self.own event = true → Ends (fun _ s₁ => Ends (fun _ s₂ =>
      (s₂.self.fp.isSome → Ends post fail (readLines os callback (closeFile os callback) s₂)) ∧
        (s₂.self.fp = none → post () s₂)) fail (openFile os s₁)) fail (closeFile os callback s)) :
    Ends post fail (dirEvent os callback event s) := by
  have hrun : dirEvent os callback event s = (if aboutName s.self.own event then
      closeFile os callback >>= fun _ => openFile os >>= fun _ => self >>= fun w =>
        if w.fp.isSome then readLines os callback (closeFile os callback) else pure ()
      else pure ()) s := rfl
  rw [hrun]
  refine .ite (fun hname => .bind ?_) fun hname => hother (by simpa using hname)
  refine (habout hname).mono (fun _ s₁ h₁ => .bind ?_) fun _ _ => id
  refine h₁.mono (fun _ s₂ h₂ => .bind (x := self) ?_) fun _ _ => id
  exact .ite h₂.1 fun hnone => h₂.2 (by simpa using hnone)

end

/-! ### The constructor -/

/-- A watcher in the constructor, when its directory is watched. -/
def watchingDir {H W : Type} (path : Bytes) (ifd dirWd : Int) (world : W) : Call H Inotify Unit W :=
  ⟨⟨path, none, [], ⟨getBaseName path, getDirName path, ifd, -1, dirWd⟩⟩, (), world⟩

/-- What holds after `openFile`, and does not depend on the offset, holds of a new watcher. -/
theorem of_construct {H W : Type} {os : Syscalls H W} {inv : Call H Inotify Unit W → Prop}
    {path : Bytes} {world world' : W} {w : InotifyWatcher H}
    (h : construct os path world = .ok w world')
    (hopen : ∀ ifd w₁ dirWd w₂, os.inotifyInit world = .ok ifd w₁ →
      os.inotifyAddWatch ifd (cstr (getDirName path)) [.create, .delete, .movedFrom, .movedTo] w₁
        = .ok dirWd w₂ →
      Ends (fun _ s => inv s) (fun _ _ => True) (openFile os (watchingDir path ifd dirWd w₂)))
    (hseek : ∀ {s f offset w₁}, inv s → s.self.fp = some f →
      os.seekEnd f.handle s.world = .ok offset w₁ →
      inv ⟨{ s.self with fp := some { f with offset } }, s.client, w₁⟩) :
    inv ⟨w, (), world'⟩ := by
  let own : Inotify := ⟨getBaseName path, getDirName path, -1, -1, -1⟩
  have hstart : Ends (fun _ s => inv s) (fun _ _ => True)
      (start os ⟨⟨path, none, [], own⟩, (), world⟩) := by
    refine .bind (sys_ends (fun ifd w₁ hinit => ?_) fun _ _ _ => trivial)
    refine .bind (x := assignOwn _) (.bind (x := self) (.bind ?_))
    refine sys_ends (fun dirWd w₂ hwatch => .bind (x := assignOwn _) ?_) fun _ _ _ => trivial
    refine .bind (Ends.mono (hopen ifd w₁ dirWd w₂ hinit hwatch) (fun _ s₁ hs₁ => ?_)
      fun _ _ _ => trivial)
    obtain ⟨⟨p, fp, line, own₁⟩, u, w₃⟩ := s₁
    cases fp with
    | none => exact hs₁
    | some f =>
      have hdiscard : Ends (fun _ s => inv s) (fun _ _ => True)
          ((sys (os.seekEnd f.handle) (ioError (lit "seeking " ++ path)) >>= fun offset =>
            assign fun w => { w with fp := some { f with offset } })
              (⟨⟨p, some f, line, own₁⟩, u, w₃⟩ : Call H Inotify Unit W)) := by
        refine .bind (sys_ends (fun offset w₄ hcall => ?_) fun _ _ _ => trivial)
        have hsought := hseek hs₁ rfl hcall
        exact hsought
      exact hdiscard
  unfold construct at h
  dsimp only at h
  cases hrun : start os ⟨⟨path, none, [], own⟩, (), world⟩ with
  | ok u s =>
    rw [hrun] at h
    obtain ⟨hself, hworld⟩ := EStateM.Result.ok.inj h
    have hs := hstart.ok hrun
    rw [← hself, ← hworld]
    exact hs
  | error e s =>
    rw [hrun] at h
    cases h

end Blockad.Proofs
