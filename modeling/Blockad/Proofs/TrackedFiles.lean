import Blockad.Model.TrackedFiles
import Blockad.Proofs.Watcher

/-!
# `Blockad.Proofs.TrackedFiles`: numbers and logs change nothing

A watcher with numbered files does what it does without the numbers, if its client does not look
at them (`Prog.Mirrors`).

* `mirrors_work`, `mirrors_poll_work`: `work`, with the log of each `getc`.
* `mirrors_construct`, `mirrors_poll_construct`, `world_destroy`, `world_poll_destroy`: the rest of
  the life of a watcher.
-/

set_option autoImplicit false

namespace Blockad.Proofs

open Bytes Prog Watcher

section
variable {H ω α W β γ : Type}

/-- A file without its number. -/
def unnumbered (f : File (Nat × H)) : File H := ⟨f.handle.2, f.offset⟩

/-- A watcher without the number of its file. -/
def untracked (w : Watcher (Nat × H) ω) : Watcher H ω :=
  { path := w.path, fp := w.fp.map unnumbered, line := w.line, own := w.own }

/-- A watcher at work, without the log. -/
def untrackedCall (s : Call (Nat × H) ω α (Tracked W)) : Call H ω α W :=
  ⟨untracked s.self, s.client, s.world.world⟩

/-- A client that does not look at the numbers. -/
def onNumbered (callback : Callback H α) : Callback (Nat × H) α :=
  fun fp line => callback (fp.map unnumbered) line

/-! ### System calls -/

/-- A call that the log does not show. -/
theorem mirrors_lift_call (call : EStateM Errno W β) :
    Mirrors id Tracked.world (Tracked.lift call) call := by
  intro t
  unfold Tracked.lift
  cases call t.world <;> rfl

/-- A call on a file, which is logged. -/
theorem mirrors_on (h : Nat × H) (call : H → EStateM Errno W β) :
    Mirrors id Tracked.world (Tracked.on h call) (call h.2) :=
  fun t => mirrors_lift_call (call h.2) (Tracked.note (.used h.1) t)

/-- `fopen` gives the file a number, and opens the same one. -/
theorem mirrors_fopen (os : Syscalls H W) (path : Bytes) :
    Mirrors Prod.snd Tracked.world ((track os).fopen path) (os.fopen path) := by
  intro t
  show mapResult _ _ (Tracked.fopen os path t) = _
  unfold Tracked.fopen
  cases os.fopen path t.world <;> rfl

/-- The same, where a file that does not exist is no failure. -/
theorem mirrors_fopen_some (os : Syscalls H W) (path : Bytes) :
    Mirrors (Option.map Prod.snd) Tracked.world (some <$> (track os).fopen path)
      (some <$> os.fopen path) :=
  (mirrors_fopen os path).map fun _ => rfl

/-- A system call with the handling of its failure. -/
theorem mirrors_sys {f : β → γ} {call : EStateM Errno (Tracked W) β} {call' : EStateM Errno W γ}
    {fail : Errno → Prog (Nat × H) ω α (Tracked W) β} {fail' : Errno → Prog H ω α W γ}
    (hcall : Mirrors f Tracked.world call call')
    (hfail : ∀ errno, Mirrors f untrackedCall (fail errno) (fail' errno)) :
    Mirrors f untrackedCall (sys call fail) (sys call' fail') := by
  intro s
  have hs := hcall s.world
  cases hrun : call s.world with
  | ok b world =>
    rw [hrun] at hs
    rw [sys_of_ok hrun, sys_of_ok (s := untrackedCall s) hs.symm]
    rfl
  | error errno world =>
    rw [hrun] at hs
    rw [sys_of_error hrun, sys_of_error (s := untrackedCall s) hs.symm]
    exact hfail errno _

/-! ### The base class -/

/-- The members of the watcher, without the number of the file. -/
theorem mirrors_self :
    Mirrors untracked untrackedCall (self : Prog (Nat × H) ω α (Tracked W) _) self := fun _ => rfl

/-- An assignment that the numbers do not take part in. -/
theorem mirrors_assign {f : Watcher (Nat × H) ω → Watcher (Nat × H) ω}
    {f' : Watcher H ω → Watcher H ω} (h : ∀ w, untracked (f w) = f' (untracked w)) :
    Mirrors id untrackedCall (assign f : Prog (Nat × H) ω α (Tracked W) Unit) (assign f') := by
  intro s
  show EStateM.Result.ok _ (Call.mk (untracked (f s.self)) s.client s.world.world) = _
  rw [h]
  rfl

/-- A file is open or not, whatever its number. -/
theorem isNone_untracked (w : Watcher (Nat × H) ω) : (untracked w).fp.isNone = w.fp.isNone :=
  Option.isNone_map

/-- The same test, the other way. -/
theorem isSome_untracked (w : Watcher (Nat × H) ω) : (untracked w).fp.isSome = w.fp.isSome :=
  Option.isSome_map

/-- A byte moves the offset, and leaves the number alone. -/
theorem untracked_takeByte (c : UInt8) (w : Watcher (Nat × H) ω) :
    untracked (takeByte c w) = takeByte c (untracked w) := by
  unfold untracked takeByte
  cases w.fp <;> rfl

/-- The client gets the same line, and does not look at the number. -/
theorem mirrors_processLine (callback : Callback H α) :
    Mirrors id untrackedCall
      (processLine (onNumbered callback) : Prog (Nat × H) ω α (Tracked W) Unit)
      (processLine callback) := by
  intro s
  cases hrun : callback (s.self.fp.map unnumbered) s.self.line s.client with
  | ok u client =>
    have hnumbered : onNumbered callback s.self.fp s.self.line s.client = .ok () client := hrun
    rw [processLine_of_ok hnumbered, processLine_of_ok (s := untrackedCall s) hrun]
    rfl
  | error e client =>
    have hnumbered : onNumbered callback s.self.fp s.self.line s.client = .error e client := hrun
    rw [processLine_of_error hnumbered, processLine_of_error (s := untrackedCall s) hrun]
    rfl

/-- The log of a `getc` is all that it adds. -/
theorem mirrors_logGetc :
    Mirrors id untrackedCall (logGetc : Prog (Nat × H) ω α (Tracked W) Unit) (pure ()) := by
  show Mirrors id untrackedCall logGetc (self >>= fun _ => pure ())
  refine mirrors_self.bind fun w => ?_
  cases w.fp with
  | none => exact .of_pure _
  | some f => exact .of_modify fun _ => rfl

/-- By induction on the bytes, with one `getc` before each. -/
theorem mirrors_readBytes {callback : Callback H α} {close : Prog (Nat × H) ω α (Tracked W) Unit}
    {close' : Prog H ω α W Unit} (hclose : Mirrors id untrackedCall close close')
    (error : Option Errno) (bytes : Bytes) :
    Mirrors id untrackedCall (readBytesWith logGetc (onNumbered callback) close error bytes)
      (readBytes callback close' error bytes) := by
  induction bytes with
  | nil =>
    refine mirrors_logGetc.bind fun _ => ?_
    cases error with
    | none => exact .of_pure _
    -- The error of the last `getc` is thrown after the file is closed.
    | some errno => exact hclose.bind fun _ => mirrors_self.bind fun _ => .of_throw _
  | cons c rest ih =>
    refine mirrors_logGetc.bind fun _ => ?_
    refine (mirrors_assign (untracked_takeByte c)).bind fun _ => .ite ?_ ih
    exact (mirrors_processLine callback).bind fun _ =>
      (mirrors_assign fun _ => rfl).bind fun _ => ih

/-- Without an open file, both run on NULL. -/
theorem mirrors_readLines {os : Syscalls H W} {callback : Callback H α}
    {close : Prog (Nat × H) ω α (Tracked W) Unit} {close' : Prog H ω α W Unit}
    (hclose : Mirrors id untrackedCall close close') :
    Mirrors id untrackedCall (readLinesWith logGetc (track os) (onNumbered callback) close)
      (readLines os callback close') := by
  refine mirrors_self.bind fun w => ?_
  obtain ⟨path, fp, line, own⟩ := w
  cases fp with
  | none => exact .of_throw _
  | some f =>
    -- What is left of a file does not depend on its number.
    have hobserve : Mirrors id untrackedCall
        (observe ((track os).unread f.handle f.offset) : Prog (Nat × H) ω α (Tracked W) _)
        (observe (os.unread f.handle.2 f.offset)) := fun _ => rfl
    exact hobserve.bind fun _ => mirrors_readBytes hclose _ _

end

/-! ### `InotifyWatcher` -/

section
variable {H α W : Type} (os : Syscalls H W) (callback : Callback H α)

open InotifyWatcher

/-- `openFile` of the watcher that uses inotify. -/
theorem mirrors_openFile :
    Mirrors id untrackedCall (openFile (track os) : Prog (Nat × H) Inotify α (Tracked W) Unit)
      (openFile os) := by
  refine mirrors_self.bind fun w => mirrors_self.bind fun w' => ?_
  rw [isNone_untracked]
  refine .ite ?_ (.of_pure _)
  refine (mirrors_sys (mirrors_fopen_some os _) fun errno => ?_).bind fun fp => ?_
  · exact .ite (.of_throw _) (.of_pure _)
  cases fp with
  | none => exact .of_pure _
  | some h =>
    refine (mirrors_assign fun _ => rfl).bind fun _ => ?_
    refine (mirrors_sys (mirrors_lift_call _) fun _ => .of_throw _).bind fun fileWd => ?_
    exact mirrors_assign fun _ => rfl

/-- The line that was begun is passed in the same way. -/
theorem mirrors_flushLine :
    Mirrors id untrackedCall
      (flushLine (onNumbered callback) : Prog (Nat × H) Inotify α (Tracked W) Unit)
      (flushLine callback) := by
  refine mirrors_self.bind fun w => .ite ?_ (.of_pure _)
  exact (mirrors_processLine callback).bind fun _ => mirrors_assign fun _ => rfl

/-- A watch has no number. -/
theorem mirrors_removeWatch :
    Mirrors id untrackedCall
      (removeWatch (track os) : Prog (Nat × H) Inotify α (Tracked W) Unit) (removeWatch os) := by
  have hforget : Mirrors id untrackedCall
      (assignOwn fun own => { own with fileWd := -1 } :
        Prog (Nat × H) Inotify α (Tracked W) Unit)
      (assignOwn fun own => { own with fileWd := -1 }) := mirrors_assign fun _ => rfl
  refine mirrors_self.bind fun w => .ite ?_ (.of_pure _)
  refine (mirrors_sys (mirrors_lift_call _) fun errno => ?_).bind fun _ => hforget
  refine hforget.bind fun _ => .ite ?_ (.of_pure _)
  exact mirrors_self.bind fun _ => .of_throw _

/-- `closeFile` of the watcher that uses inotify. -/
theorem mirrors_closeFile :
    Mirrors id untrackedCall (closeFile (track os) (onNumbered callback))
      (closeFile os callback) := by
  refine mirrors_self.bind fun w => ?_
  obtain ⟨path, fp, line, own⟩ := w
  cases fp with
  | none => exact .of_pure _
  | some f =>
    refine (mirrors_flushLine callback).bind fun _ => (mirrors_removeWatch os).bind fun _ => ?_
    have hfclose : Mirrors id untrackedCall
        (sysVoid ((track os).fclose f.handle) : Prog (Nat × H) Inotify α (Tracked W) Unit)
        (sysVoid (os.fclose f.handle.2)) := .of_modify fun _ => rfl
    exact hfclose.bind fun _ => mirrors_assign fun _ => rfl

/-- **`work`** does the same with numbered files, and logs each `getc`. -/
theorem mirrors_work :
    Mirrors id untrackedCall (workWith logGetc (track os) (onNumbered callback))
      (work os callback) := by
  have hclose := mirrors_closeFile os callback
  have hread := @mirrors_readLines H Inotify α W os callback _ _ hclose
  refine mirrors_self.bind fun w => ?_
  refine (mirrors_sys (mirrors_lift_call _) fun errno => ?_).bind fun events => ?_
  · exact .ite (.of_throw _) (.of_pure _)
  -- One event is handled for the file first, and then for the directory.
  refine .forM fun event => Mirrors.bind (f := id) ?_ fun _ => ?_
  · refine mirrors_self.bind fun _ => .ite ?_ (.of_pure _)
    exact hread.bind fun _ => .ite hclose (.of_pure _)
  · refine mirrors_self.bind fun _ => .ite ?_ (.of_pure _)
    refine hclose.bind fun _ => (mirrors_openFile os).bind fun _ => mirrors_self.bind fun w => ?_
    rw [isSome_untracked]
    exact .ite hread (.of_pure _)

/-- The body of the constructor. -/
theorem mirrors_start :
    Mirrors id untrackedCall (start (track os)) (start os) := by
  refine (mirrors_sys (mirrors_lift_call _) fun _ => .of_throw _).bind fun ifd => ?_
  refine (mirrors_assign fun _ => rfl).bind fun _ => mirrors_self.bind fun w => ?_
  refine (mirrors_sys (mirrors_lift_call _) fun _ => .of_throw _).bind fun dirWd => ?_
  refine (mirrors_assign fun _ => rfl).bind fun _ => (mirrors_openFile os).bind fun _ => ?_
  refine mirrors_self.bind fun w' => ?_
  obtain ⟨path, fp, line, own⟩ := w'
  cases fp with
  | none => exact .of_pure _
  | some f =>
    refine (mirrors_sys (mirrors_on f.handle os.seekEnd) fun _ => .of_throw _).bind fun offset => ?_
    exact mirrors_assign fun _ => rfl

/-- The base class closes the file in the world, and the log shows it. -/
theorem world_destroyBase (w : InotifyWatcher (Nat × H)) (t : Tracked W) :
    (destroyBase (track os) w t).world = destroyBase os (untracked w) t.world := by
  obtain ⟨path, fp, line, own⟩ := w
  cases fp <;> rfl

/-- **The constructor**, also where an exception destroys the base class. -/
theorem mirrors_construct (path : Bytes) :
    Mirrors untracked Tracked.world (construct (track os) path) (construct os path) := by
  intro t
  have hstart := mirrors_start os
    ⟨⟨path, none, [], ⟨getBaseName path, getDirName path, -1, -1, -1⟩⟩, (), t⟩
  rw [construct, construct]
  cases hrun : start (track os)
      ⟨⟨path, none, [], ⟨getBaseName path, getDirName path, -1, -1, -1⟩⟩, (), t⟩ with
  | ok u s =>
    rw [hrun] at hstart
    have hrun' : start os ⟨⟨path, none, [], ⟨getBaseName path, getDirName path, -1, -1, -1⟩⟩, (),
        t.world⟩ = .ok () (untrackedCall s) := hstart.symm
    rw [hrun']
    rfl
  | error e s =>
    rw [hrun] at hstart
    have hrun' : start os ⟨⟨path, none, [], ⟨getBaseName path, getDirName path, -1, -1, -1⟩⟩, (),
        t.world⟩ = .error e (untrackedCall s) := hstart.symm
    rw [hrun']
    exact congrArg (EStateM.Result.error e) (world_destroyBase os s.self s.world)

/-- **The destructor** does the same to the world. -/
theorem world_destroy (w : InotifyWatcher (Nat × H)) (t : Tracked W) :
    (destroy (track os) w t).world = destroy os (untracked w) t.world := by
  unfold destroy
  rw [world_destroyBase]
  -- The descriptor of inotify is closed before the base class closes the file.
  show destroyBase os (untracked w) (Tracked.world (if w.own.ifd ≥ 0 then _ else t)) =
    destroyBase os (untracked w) (if w.own.ifd ≥ 0 then _ else t.world)
  split <;> rfl

end

/-! ### `PollingWatcher` -/

section
variable {H α W : Type} (os : PollSyscalls H W) (callback : Callback H α)

open PollingWatcher

/-- `openFile` of the watcher that polls. -/
theorem mirrors_poll_openFile :
    Mirrors id untrackedCall (openFile (trackPoll os) : Prog (Nat × H) Polling α (Tracked W) Unit)
      (openFile os) := by
  refine mirrors_self.bind fun w => mirrors_self.bind fun w' => ?_
  rw [isNone_untracked]
  refine .ite ?_ (.of_pure _)
  refine (mirrors_sys (mirrors_fopen_some os.toSyscalls _) fun errno => ?_).bind fun fp => ?_
  · exact .ite (.of_throw _) (.of_pure _)
  cases fp with
  | none => exact .of_pure _
  | some h =>
    refine (mirrors_assign fun _ => rfl).bind fun _ => ?_
    refine (mirrors_sys (mirrors_on h os.fstat) fun _ => .of_throw _).bind fun sb => ?_
    exact mirrors_assign fun _ => rfl

/-- `closeFile` of the watcher that polls. -/
theorem mirrors_poll_closeFile :
    Mirrors id untrackedCall (closeFile (trackPoll os) (onNumbered callback))
      (closeFile os callback) := by
  refine mirrors_self.bind fun w => ?_
  obtain ⟨path, fp, line, own⟩ := w
  cases fp with
  | none => exact .of_pure _
  | some f =>
    have hclosed : Mirrors id untrackedCall (do
          sysVoid ((trackPoll os).fclose f.handle)
          assign fun w => { w with fp := none }
          assignOwn fun own => { own with dev := -1, ino := -1 } :
            Prog (Nat × H) Polling α (Tracked W) Unit)
        (do
          sysVoid (os.fclose f.handle.2)
          assign fun w => { w with fp := none }
          assignOwn fun own => { own with dev := -1, ino := -1 }) := by
      have hfclose : Mirrors id untrackedCall
          (sysVoid ((trackPoll os).fclose f.handle) : Prog (Nat × H) Polling α (Tracked W) Unit)
          (sysVoid (os.fclose f.handle.2)) := .of_modify fun _ => rfl
      refine hfclose.bind fun _ => (mirrors_assign fun _ => rfl).bind fun _ => ?_
      exact mirrors_assign fun _ => rfl
    refine mirrors_self.bind fun w => .ite ?_ hclosed
    exact (mirrors_processLine callback).bind fun _ =>
      (mirrors_assign fun _ => rfl).bind fun _ => hclosed

/-- The comparison looks at the identity of the file, which is no number. -/
theorem mirrors_isReplaced :
    Mirrors id untrackedCall
      (isReplaced (trackPoll os) : Prog (Nat × H) Polling α (Tracked W) Bool) (isReplaced os) := by
  refine mirrors_self.bind fun w => ?_
  have hstat : Mirrors (Option.map id) Tracked.world
      (some <$> (trackPoll os).stat (cstr w.path)) (some <$> os.stat (cstr w.path)) :=
    (mirrors_lift_call _).map fun _ => rfl
  refine (mirrors_sys hstat fun _ => .of_pure _).bind fun sb => ?_
  cases sb with
  | none => exact .of_pure _
  | some sb => exact .of_pure _

/-- **`work`** of the watcher that polls, with the log of each `getc`. -/
theorem mirrors_poll_work :
    Mirrors id untrackedCall (workWith logGetc (trackPoll os) (onNumbered callback))
      (work os callback) := by
  have hclose := mirrors_poll_closeFile os callback
  -- The rest of `work`, from its two later tests on.
  have hread : Mirrors id untrackedCall
      (self >>= fun w => if w.fp.isSome then
        readLinesWith logGetc (track os.toSyscalls) (onNumbered callback)
          (closeFile (trackPoll os) (onNumbered callback)) else pure ())
      (self >>= fun w => if w.fp.isSome then
        readLines os.toSyscalls callback (closeFile os callback) else pure ()) := by
    refine mirrors_self.bind fun w => ?_
    rw [isSome_untracked]
    exact .ite (mirrors_readLines hclose) (.of_pure _)
  have hopen : Mirrors id untrackedCall
      (self >>= fun w => if w.fp.isNone then openFile (trackPoll os) >>= fun _ =>
          self >>= fun w => if w.fp.isSome then
            readLinesWith logGetc (track os.toSyscalls) (onNumbered callback)
              (closeFile (trackPoll os) (onNumbered callback)) else pure ()
        else self >>= fun w => if w.fp.isSome then
          readLinesWith logGetc (track os.toSyscalls) (onNumbered callback)
            (closeFile (trackPoll os) (onNumbered callback)) else pure ())
      (self >>= fun w => if w.fp.isNone then openFile os >>= fun _ =>
          self >>= fun w => if w.fp.isSome then
            readLines os.toSyscalls callback (closeFile os callback) else pure ()
        else self >>= fun w => if w.fp.isSome then
          readLines os.toSyscalls callback (closeFile os callback) else pure ()) := by
    refine mirrors_self.bind fun w => ?_
    rw [isNone_untracked]
    exact .ite ((mirrors_poll_openFile os).bind fun _ => hread) hread
  have htime : Mirrors id untrackedCall
      (observe (trackPoll os).time : Prog (Nat × H) Polling α (Tracked W) Int)
      (observe os.time) := fun _ => rfl
  refine htime.bind fun next => (mirrors_assign fun _ => rfl).bind fun _ => ?_
  refine mirrors_self.bind fun w => ?_
  rw [isSome_untracked]
  refine .ite ((mirrors_isReplaced os).bind fun other => ?_) hopen
  exact .ite (hclose.bind fun _ => hopen) hopen

/-- Its constructor. -/
theorem mirrors_poll_construct (path : Bytes) :
    Mirrors untracked Tracked.world (construct (trackPoll os) path) (construct os path) := by
  intro t
  have hopen := mirrors_poll_openFile os ⟨⟨path, none, [], ⟨(trackPoll os).time t, -1, -1⟩⟩, (), t⟩
  rw [construct, construct]
  cases hrun : openFile (trackPoll os)
      ⟨⟨path, none, [], ⟨(trackPoll os).time t, -1, -1⟩⟩, (), t⟩ with
  | ok u s =>
    rw [hrun] at hopen
    have hrun' : openFile os ⟨⟨path, none, [], ⟨os.time t.world, -1, -1⟩⟩, (), t.world⟩ =
        .ok () (untrackedCall s) := hopen.symm
    rw [hrun']
    rfl
  | error e s =>
    rw [hrun] at hopen
    have hrun' : openFile os ⟨⟨path, none, [], ⟨os.time t.world, -1, -1⟩⟩, (), t.world⟩ =
        .error e (untrackedCall s) := hopen.symm
    rw [hrun']
    obtain ⟨⟨path', fp, line, own⟩, client, world⟩ := s
    cases fp <;> rfl

/-- Its destructor. -/
theorem world_poll_destroy (w : PollingWatcher (Nat × H)) (t : Tracked W) :
    (destroy (trackPoll os) w t).world = destroy os (untracked w) t.world := by
  obtain ⟨path, fp, line, own⟩ := w
  cases fp <;> rfl

end

end Blockad.Proofs
