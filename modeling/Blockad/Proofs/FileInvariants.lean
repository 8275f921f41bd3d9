import Blockad.Lib.Runs
import Blockad.Model.TrackedFiles
import Blockad.Proofs.Watcher

/-!
# `Blockad.Proofs.FileInvariants`: invariants of a watcher in use

Whatever is an invariant of a watcher and its files has to survive a few things only: a change to
what it is not about (`Framed`), `fopen` and calls on the open file (`Opens`), and reading, passing
lines and `fclose` (`Rules`). The programs of both classes are built from these.

* `preserves_work`, `preserves_poll_work`: `work` keeps the invariant, also when it throws.
* `holds_of_construct`, `holds_of_poll_construct`: a new watcher has it.
* `invariant_of_reachable`: it holds in all runs.
-/

set_option autoImplicit false

namespace Blockad.Proofs

open Bytes Lifetimes Prog Runs Watcher

/-- A watcher at work on numbered files. -/
abbrev TrackedCall (H ω α W : Type) := Call (Nat × H) ω α (Tracked W)

section
variable {H ω α W β : Type}

/-! ### The rules -/

/-- The invariant is not about the members of the derived class, or the world behind the files. -/
structure Framed (inv : TrackedCall H ω α W → Prop) : Prop where
  own : ∀ s own, inv s → inv { s with self := { s.self with own } }
  world : ∀ s world, inv s → inv { s with world := { s.world with world } }

/-- The invariant survives the operations on files, as far as `openFile` has them. -/
structure Opens (inv : TrackedCall H ω α W → Prop) : Prop extends Framed inv where
  used : ∀ s f, inv s → s.self.fp = some f →
    inv { s with world := Tracked.note (.used f.handle.1) s.world }
  opened : ∀ s h, inv s → s.self.fp = none →
    inv { s with
      self := { s.self with fp := some ⟨(s.world.next, h), 0⟩ }
      world := { s.world with
        next := s.world.next + 1
        log := s.world.log ++ [.acquired s.world.next] } }

/-- The invariant survives all operations. In `newline` and `partialLine` the client may throw, and
`after` holds then. -/
structure Rules (callback : Callback (Nat × H) α) (inv after : TrackedCall H ω α W → Prop) : Prop
    extends Opens inv where
  weaken : ∀ s, inv s → after s
  byte : ∀ s f c, inv s → s.self.fp = some f → c ≠ nl →
    inv { s with self := takeByte c s.self }
  newline : ∀ s f, inv s → s.self.fp = some f →
    Ends (fun _ s' => inv { s' with self := clearLine s'.self }) (fun _ => after)
      (processLine callback { s with self := takeByte nl s.self })
  partialLine : ∀ s f, inv s → s.self.fp = some f → s.self.line ≠ [] →
    Ends (fun _ s' => inv { s' with self := clearLine s'.self }) (fun _ => after)
      (processLine callback s)
  closed : ∀ s f, inv s → s.self.fp = some f → s.self.line = [] →
    inv { s with
      self := { s.self with fp := none }
      world := Tracked.note (.released f.handle.1) s.world }

variable {inv after : TrackedCall H ω α W → Prop}

/-- A frame may fix the file and the line as well. -/
theorem Framed.fixing (h : Framed inv) (fp : Option (File (Nat × H))) (line : Bytes) :
    Framed fun s => inv s ∧ s.self.fp = fp ∧ s.self.line = line :=
  ⟨fun s own hs => ⟨h.own s own hs.1, hs.2⟩, fun s world hs => ⟨h.world s world hs.1, hs.2⟩⟩

/-! ### Steps -/

/-- The watcher looks at itself. -/
theorem ends_self {post : β → TrackedCall H ω α W → Prop} {fail : Halt → TrackedCall H ω α W → Prop}
    {f : Watcher (Nat × H) ω → Prog (Nat × H) ω α (Tracked W) β} {s : TrackedCall H ω α W}
    (h : Ends post fail (f s.self s)) : Ends post fail ((self >>= f) s) := h

/-- Reading the members changes nothing. -/
theorem preserves_self {f : Watcher (Nat × H) ω → Prog (Nat × H) ω α (Tracked W) β}
    (h : ∀ w, Preserves inv after (f w)) : Preserves inv after (self >>= f) :=
  Preserves.bind (fun _ hs => hs) h

/-- A call that succeeds, with the log unchanged. -/
theorem lift_of_ok {call : EStateM Errno W β} {t : Tracked W} {b : β} {world : W}
    (h : call t.world = .ok b world) : Tracked.lift call t = .ok b { t with world } := by
  rw [Tracked.lift, h]

/-- A call that fails, with the log unchanged. -/
theorem lift_of_error {call : EStateM Errno W β} {t : Tracked W} {errno : Errno} {world : W}
    (h : call t.world = .error errno world) :
    Tracked.lift call t = .error errno { t with world } := by
  rw [Tracked.lift, h]

/-- A call that the log does not show preserves what is about the files only. -/
theorem preserves_lift (h : Framed inv) {call : EStateM Errno W β}
    {fail : Errno → Prog (Nat × H) ω α (Tracked W) β}
    (hfail : ∀ errno, Preserves inv after (fail errno)) :
    Preserves inv after (sys (Tracked.lift call) fail) := by
  intro s hs
  cases hrun : call s.world.world with
  | ok b world =>
    rw [sys_of_ok (lift_of_ok hrun)]
    exact h.world s world hs
  | error errno world =>
    rw [sys_of_error (lift_of_error hrun)]
    exact hfail errno _ (h.world s world hs)

/-- A failure of `stat` is a result. -/
theorem preserves_stat (h : Framed inv) (call : EStateM Errno W β) :
    Preserves inv after (sys (some <$> Tracked.lift call) fun _ => pure none :
      Prog (Nat × H) ω α (Tracked W) (Option β)) := by
  intro s hs
  cases hrun : call s.world.world with
  | ok b world =>
    rw [sys_of_ok (map_of_ok (lift_of_ok hrun))]
    exact h.world s world hs
  | error errno world =>
    rw [sys_of_error (map_of_error (lift_of_error hrun))]
    exact h.world s world hs

/-- A system call on the open file, whose failure is thrown. -/
theorem ends_on (h : Opens inv) (hafter : ∀ s, inv s → after s) {s : TrackedCall H ω α W}
    {f : File (Nat × H)} {call : H → EStateM Errno W β} {e : Errno → Halt} (hs : inv s)
    (hfp : s.self.fp = some f) :
    Ends (fun _ s' => inv s' ∧ s'.self = s.self) (fun _ => after)
      (sys (Tracked.on f.handle call) (fun errno => throw (e errno)) s) := by
  have hused := h.used s f hs hfp
  cases hrun : call f.handle.2 s.world.world with
  | ok b world =>
    have hon : Tracked.on f.handle call s.world =
        .ok b { Tracked.note (.used f.handle.1) s.world with world } := lift_of_ok hrun
    rw [sys_of_ok hon]
    exact ⟨h.world _ world hused, rfl⟩
  | error errno world =>
    have hon : Tracked.on f.handle call s.world =
        .error errno { Tracked.note (.used f.handle.1) s.world with world } := lift_of_error hrun
    rw [sys_of_error hon]
    exact hafter _ (h.world _ world hused)

/-- Both `openFile` go on with `rest` once the file is open. -/
theorem ends_fopen (h : Opens inv) {os : Syscalls H W} {s : TrackedCall H ω α W} {path : Bytes}
    {fail : Errno → Prog (Nat × H) ω α (Tracked W) (Option (Nat × H))}
    {next : Option (Nat × H) → Prog (Nat × H) ω α (Tracked W) Unit}
    {rest : Nat × H → Prog (Nat × H) ω α (Tracked W) Unit} (hs : inv s) (hfp : s.self.fp = none)
    (hfail : ∀ errno s, inv s →
      Ends (fun opened s' => opened = none ∧ inv s') (fun _ => after) (fail errno s))
    (hnone : next none = pure ())
    (hsome : ∀ handle, next (some handle) =
      assign (fun w => { w with fp := some { handle, offset := 0 } }) >>= fun _ => rest handle)
    (hrest : ∀ handle s, inv s → s.self.fp = some ⟨handle, 0⟩ →
      Ends (fun _ => inv) (fun _ => after) (rest handle s)) :
    Ends (fun _ => inv) (fun _ => after)
      ((sys (some <$> (track os).fopen path) fail >>= next) s) := by
  cases hopen : os.fopen path s.world.world with
  | ok handle world =>
    have hfopen : (track os).fopen path s.world = .ok (s.world.next, handle)
        ⟨world, s.world.next + 1, s.world.log ++ [.acquired s.world.next]⟩ := by
      show Tracked.fopen os path s.world = _
      rw [Tracked.fopen, hopen]
    -- The new file gets the next number.
    rw [bind_of_ok (sys_of_ok (map_of_ok hfopen)), hsome]
    exact hrest (s.world.next, handle) ⟨{ s.self with fp := some ⟨(s.world.next, handle), 0⟩ },
      s.client, ⟨world, s.world.next + 1, s.world.log ++ [.acquired s.world.next]⟩⟩
      (h.world _ world (h.opened s handle hs hfp)) rfl
  | error errno world =>
    have hfopen : (track os).fopen path s.world = .error errno { s.world with world } := by
      show Tracked.fopen os path s.world = _
      rw [Tracked.fopen, hopen]
    refine .bind ?_
    rw [sys_of_error (map_of_error hfopen)]
    refine (hfail errno _ (h.world s world hs)).mono ?_ fun _ _ => id
    rintro opened s' ⟨rfl, hs'⟩
    rw [hnone]
    exact hs'

/-! ### The base class -/

/-- The invariant, while a file is open. -/
def WhileOpen (inv : TrackedCall H ω α W → Prop) (s : TrackedCall H ω α W) : Prop :=
  inv s ∧ ∃ f, s.self.fp = some f

/-- A `getc` on the open file is one more use of it. -/
theorem ends_logGetc (h : Opens inv) {s : TrackedCall H ω α W} (hs : WhileOpen inv s) :
    Ends (fun _ => WhileOpen inv) (fun _ => after) (logGetc s) := by
  obtain ⟨hs, f, hfp⟩ := hs
  have hrun : logGetc s = .ok () { s with world := Tracked.note (.used f.handle.1) s.world } := by
    obtain ⟨⟨path, fp, line, own⟩, client, world⟩ := s
    cases hfp
    rfl
  rw [hrun]
  exact ⟨h.used s f hs hfp, f, hfp⟩

/-- A line that was passed is cleared. -/
theorem ends_clearLine {callback : Callback (Nat × H) α} {s : TrackedCall H ω α W}
    (h : Ends (fun _ s' => inv { s' with self := clearLine s'.self }) (fun _ => after)
      (processLine callback s)) :
    Ends (fun _ s' => inv s' ∧ s'.self = clearLine s.self) (fun _ => after)
      ((processLine callback >>= fun _ => assign clearLine) s) := by
  refine .bind ?_
  unfold processLine at h ⊢
  cases hrun : callback s.self.fp s.self.line s.client with
  | ok u client =>
    rw [hrun] at h
    exact ⟨h, rfl⟩
  | error e client =>
    rw [hrun] at h
    exact h

/-- By induction on the bytes. The file stays open until the error that may end it. -/
theorem ends_readBytes {callback : Callback (Nat × H) α} (h : Rules callback inv after)
    {closeFile : Prog (Nat × H) ω α (Tracked W) Unit} (hclose : Preserves inv after closeFile)
    (error : Option Errno) (bytes : Bytes) {s : TrackedCall H ω α W} (hs : WhileOpen inv s) :
    Ends (fun _ => inv) (fun _ => after)
      (readBytesWith logGetc callback closeFile error bytes s) := by
  induction bytes generalizing s with
  | nil =>
    refine .bind ((ends_logGetc h.toOpens hs).mono (fun _ s₁ hs₁ => ?_) fun _ _ => id)
    cases error with
    | none => exact hs₁.1
    | some errno =>
      exact (hclose.bind fun _ => preserves_self fun _ => .of_throw h.weaken _) s₁ hs₁.1
  | cons c rest ih =>
    refine .bind ((ends_logGetc h.toOpens hs).mono (fun _ s₁ hs₁ => ?_) fun _ _ => id)
    obtain ⟨hs₁, f, hfp⟩ := hs₁
    have hfp' : (takeByte c s₁.self).fp = some { f with offset := f.offset + 1 } := by
      unfold takeByte
      rw [hfp]
      rfl
    refine .bind (.ite (fun hc => ?_) fun hc => ?_)
    · obtain rfl : c = nl := by simpa using hc
      -- The line is passed and cleared as one step. Between the two, the invariant need not hold.
      rw [← bind_assoc]
      refine .bind ?_
      refine (ends_clearLine (h.newline s₁ f hs₁ hfp)).mono (fun _ s₂ hs₂ => ?_) fun _ _ => id
      refine ih ⟨hs₂.1, { f with offset := f.offset + 1 }, ?_⟩
      rw [hs₂.2]
      exact hfp'
    · exact ih ⟨h.byte s₁ f c hs₁ hfp (by simpa using hc), _, hfp'⟩

/-- Without an open file, reading runs on NULL. -/
theorem preserves_readLines {os : Syscalls H W} {callback : Callback (Nat × H) α}
    (h : Rules callback inv after) {closeFile : Prog (Nat × H) ω α (Tracked W) Unit}
    (hclose : Preserves inv after closeFile) :
    Preserves inv after (readLinesWith logGetc (track os) callback closeFile) := by
  intro s hs
  refine ends_self ?_
  cases hfp : s.self.fp with
  | none => exact h.weaken s hs
  | some f => exact ends_readBytes h hclose _ _ ⟨hs, f, hfp⟩

/-- Both `closeFile` pass the line that was begun. -/
theorem ends_partialLine {callback : Callback (Nat × H) α} (h : Rules callback inv after)
    {s : TrackedCall H ω α W} {f : File (Nat × H)} (hs : inv s) (hfp : s.self.fp = some f)
    (hline : s.self.line ≠ []) :
    Ends (fun _ s' => inv s' ∧ s'.self.fp = some f ∧ s'.self.line = []) (fun _ => after)
      ((processLine callback >>= fun _ => assign clearLine) s) := by
  refine (ends_clearLine (h.partialLine s f hs hfp hline)).mono (fun _ s' hs' => ?_) fun _ _ => id
  rw [hs'.2]
  exact ⟨hs'.1, hfp, rfl⟩

/-- The file is closed, and the pointer to it is cleared. -/
theorem inv_of_fclose (os : Syscalls H W) {callback : Callback (Nat × H) α}
    (h : Rules callback inv after) {s : TrackedCall H ω α W} {f : File (Nat × H)}
    (hs : inv s ∧ s.self.fp = some f ∧ s.self.line = []) :
    inv { s with
      self := { s.self with fp := none }
      world := (track os).fclose f.handle s.world } :=
  h.world _ (os.fclose f.handle.2 s.world.world) (h.closed s f hs.1 hs.2.1 hs.2.2)

end

/-! ### `InotifyWatcher` -/

section
variable {H α W : Type} {inv after : TrackedCall H Inotify α W → Prop} (os : Syscalls H W)
  (callback : Callback (Nat × H) α)

open InotifyWatcher

/-- The descriptors are not about the files. -/
theorem preserves_assignOwn (h : Framed inv) (f : Inotify → Inotify) :
    Preserves inv after (assignOwn f : Prog (Nat × H) Inotify α (Tracked W) Unit) :=
  fun s hs => h.own s (f s.self.own) hs

/-- A file is opened where none is open. -/
theorem preserves_openFile (h : Opens inv) (hafter : ∀ s, inv s → after s) :
    Preserves inv after (openFile (track os) : Prog (Nat × H) Inotify α (Tracked W) Unit) := by
  intro s hs
  refine ends_self (ends_self (.ite (fun hfp => ?_) fun _ => hs))
  refine ends_fopen h hs (by simpa using hfp) ?_ rfl (fun _ => rfl) fun handle s' hs' _ => ?_
  · intro errno s' hs'
    exact .ite (fun _ => hafter s' hs') fun _ => ⟨rfl, hs'⟩
  · refine Preserves.bind ?_ (fun fileWd => ?_) s' hs'
    · exact preserves_lift h.toFramed fun _ => .of_throw hafter _
    · exact preserves_assignOwn h.toFramed _

/-- The watches are not about the files. -/
theorem preserves_removeWatch (h : Framed inv) (hafter : ∀ s, inv s → after s) :
    Preserves inv after
      (removeWatch (track os) : Prog (Nat × H) Inotify α (Tracked W) Unit) := by
  refine preserves_self fun w => .ite ?_ (.of_pure _)
  refine (preserves_lift h fun errno => ?_).bind fun _ => preserves_assignOwn h _
  refine (preserves_assignOwn h _).bind fun _ => .ite ?_ (.of_pure _)
  exact preserves_self fun _ => .of_throw hafter _

/-- The line that was begun is passed before the file is closed. -/
theorem preserves_closeFile (h : Rules callback inv after) :
    Preserves inv after (closeFile (track os) callback) := by
  intro s hs
  refine ends_self ?_
  cases hfp : s.self.fp with
  | none => exact hs
  | some f =>
    have hflush : Ends (fun _ s' => inv s' ∧ s'.self.fp = some f ∧ s'.self.line = [])
        (fun _ => after) (flushLine callback s) := by
      refine ends_self (.ite (fun hline => ?_) fun hline => ?_)
      · exact ends_partialLine h hs hfp (by simpa using hline)
      · exact ⟨hs, hfp, by simpa using hline⟩
    refine .bind (hflush.mono (fun _ s₁ hs₁ => .bind ?_) fun _ _ => id)
    -- The removal of the watch changes neither the file nor the line.
    have hremove := preserves_removeWatch os (h.toFramed.fixing (some f) [])
      (fun s hs => h.weaken s hs.1) s₁ hs₁
    exact hremove.mono (fun _ s₂ hs₂ => inv_of_fclose os h hs₂) fun _ _ => id

/-- **`work`** preserves the invariant, and what holds after an exception of it. -/
theorem preserves_work (h : Rules callback inv after) :
    Preserves inv after (workWith logGetc (track os) callback) := by
  have hclose := preserves_closeFile os callback h
  have hread := @preserves_readLines H Inotify α W inv after os callback h _ hclose
  refine preserves_self fun w => (preserves_lift h.toFramed fun errno => ?_).bind fun events => ?_
  · exact .ite (.of_throw h.weaken _) (.of_pure _)
  refine .forM fun event => .bind ?_ fun _ => ?_
  · refine preserves_self fun _ => .ite ?_ (.of_pure _)
    exact hread.bind fun _ => .ite hclose (.of_pure _)
  · refine preserves_self fun _ => .ite ?_ (.of_pure _)
    refine hclose.bind fun _ => (preserves_openFile os h.toOpens h.weaken).bind fun _ => ?_
    exact preserves_self fun _ => .ite hread (.of_pure _)

/-- The constructor looks for the end of the file that it opened. -/
theorem preserves_start {inv : TrackedCall H Inotify Unit W → Prop} (h : Opens inv)
    (hseek : ∀ s f offset, inv s → s.self.fp = some f →
      inv { s with self := { s.self with fp := some { f with offset } } }) :
    Preserves inv inv (start (track os)) := by
  have hself : ∀ s, inv s → inv s := fun _ => id
  refine (preserves_lift h.toFramed fun _ => .of_throw hself _).bind fun ifd => ?_
  refine (preserves_assignOwn h.toFramed _).bind fun _ => preserves_self fun w => ?_
  refine (preserves_lift h.toFramed fun _ => .of_throw hself _).bind fun dirWd => ?_
  refine (preserves_assignOwn h.toFramed _).bind fun _ => ?_
  refine (preserves_openFile os h hself).bind fun _ => ?_
  intro s hs
  refine ends_self ?_
  cases hfp : s.self.fp with
  | none => exact hs
  | some f =>
    -- The constructor goes to the end of the file, which moves its offset.
    refine .bind ((ends_on h hself hs hfp).mono (fun offset s' hs' => ?_) fun _ _ => id)
    exact hseek s' f offset hs'.1 (by rw [hs'.2, hfp])

/-- What the constructor leaves behind. -/
theorem holds_of_construct {inv : TrackedCall H Inotify Unit W → Prop} (h : Opens inv)
    (hseek : ∀ s f offset, inv s → s.self.fp = some f →
      inv { s with self := { s.self with fp := some { f with offset } } })
    {path : Bytes} {world : W} {w : InotifyWatcher (Nat × H)} {t : Tracked W}
    (hstart : ∀ own, inv ⟨⟨path, none, [], own⟩, (), Tracked.start world⟩)
    (hrun : construct (track os) path (Tracked.start world) = .ok w t) : inv ⟨w, (), t⟩ := by
  have hends := preserves_start os h hseek _
    (hstart ⟨getBaseName path, getDirName path, -1, -1, -1⟩)
  rw [construct] at hrun
  cases hrun' : start (track os) ⟨⟨path, none, [],
      ⟨getBaseName path, getDirName path, -1, -1, -1⟩⟩, (), Tracked.start world⟩ with
  | ok u s =>
    rw [hrun'] at hends hrun
    cases hrun
    exact hends
  | error e s =>
    rw [hrun'] at hrun
    cases hrun

end

/-! ### `PollingWatcher` -/

section
variable {H α W : Type} {inv after : TrackedCall H Polling α W → Prop} (os : PollSyscalls H W)
  (callback : Callback (Nat × H) α)

open PollingWatcher

/-- The identity of the file is not about its life. -/
theorem preserves_poll_assignOwn (h : Framed inv) (f : Polling → Polling) :
    Preserves inv after (assignOwn f : Prog (Nat × H) Polling α (Tracked W) Unit) :=
  fun s hs => h.own s (f s.self.own) hs

/-- A file is opened where none is open. -/
theorem preserves_poll_openFile (h : Opens inv) (hafter : ∀ s, inv s → after s) :
    Preserves inv after (openFile (trackPoll os) : Prog (Nat × H) Polling α (Tracked W) Unit) := by
  intro s hs
  refine ends_self (ends_self (.ite (fun hfp => ?_) fun _ => hs))
  refine ends_fopen h hs (by simpa using hfp) ?_ rfl (fun _ => rfl) fun handle s' hs' hfp' => ?_
  · intro errno s' hs'
    exact .ite (fun _ => hafter s' hs') fun _ => ⟨rfl, hs'⟩
  · refine .bind ((ends_on h hafter hs' hfp').mono (fun sb s₁ hs₁ => ?_) fun _ _ => id)
    exact preserves_poll_assignOwn h.toFramed _ s₁ hs₁.1

/-- The line that was begun is passed before the file is closed. -/
theorem preserves_poll_closeFile (h : Rules callback inv after) :
    Preserves inv after (closeFile (trackPoll os) callback) := by
  intro s hs
  refine ends_self ?_
  cases hfp : s.self.fp with
  | none => exact hs
  | some f =>
    -- The rest of `closeFile` is the same with a line and without one.
    have hclosed (s : TrackedCall H Polling α W)
        (hs : inv s ∧ s.self.fp = some f ∧ s.self.line = []) :
        Ends (fun _ => inv) (fun _ => after) ((do
          sysVoid ((trackPoll os).fclose f.handle)
          assign fun w => { w with fp := none }
          assignOwn fun own => { own with dev := -1, ino := -1 } :
            Prog (Nat × H) Polling α (Tracked W) Unit) s) :=
      preserves_poll_assignOwn h.toFramed (fun own => { own with dev := -1, ino := -1 }) _
        (inv_of_fclose os.toSyscalls h hs)
    refine ends_self (.ite (fun hline => ?_) fun hline => ?_)
    · rw [← bind_assoc]
      refine .bind ((ends_partialLine h hs hfp (by simpa using hline)).mono ?_ fun _ _ => id)
      exact fun _ s₁ hs₁ => hclosed s₁ hs₁
    · exact hclosed s ⟨hs, hfp, by simpa using hline⟩

/-- **`work`** of the watcher that polls. -/
theorem preserves_poll_work (h : Rules callback inv after) :
    Preserves inv after (workWith logGetc (trackPoll os) callback) := by
  have hclose := preserves_poll_closeFile os callback h
  -- The rest of `work`, from its two later tests on.
  have hread : Preserves inv after (self >>= fun w => if w.fp.isSome then
      readLinesWith logGetc (track os.toSyscalls) callback (closeFile (trackPoll os) callback)
      else pure ()) :=
    preserves_self fun _ => .ite (preserves_readLines h hclose) (.of_pure _)
  have hopen : Preserves inv after (self >>= fun w => if w.fp.isNone then
      openFile (trackPoll os) >>= fun _ => self >>= fun w => if w.fp.isSome then
        readLinesWith logGetc (track os.toSyscalls) callback (closeFile (trackPoll os) callback)
        else pure ()
      else self >>= fun w => if w.fp.isSome then
        readLinesWith logGetc (track os.toSyscalls) callback (closeFile (trackPoll os) callback)
        else pure ()) :=
    preserves_self fun _ =>
      .ite ((preserves_poll_openFile os h.toOpens h.weaken).bind fun _ => hread) hread
  have hreplaced : Preserves inv after
      (isReplaced (trackPoll os) : Prog (Nat × H) Polling α (Tracked W) Bool) :=
    preserves_self fun w => (preserves_stat h.toFramed _).bind fun _ => .of_pure _
  refine Preserves.bind (fun _ hs => hs) fun next => ?_
  refine (preserves_poll_assignOwn h.toFramed _).bind fun _ => preserves_self fun _ => .ite ?_ hopen
  exact hreplaced.bind fun _ => .ite (hclose.bind fun _ => hopen) hopen

/-- The invariant holds of a new watcher that polls. -/
theorem holds_of_poll_construct {inv : TrackedCall H Polling Unit W → Prop} (h : Opens inv)
    {path : Bytes} {world : W} {w : PollingWatcher (Nat × H)} {t : Tracked W}
    (hstart : ∀ own, inv ⟨⟨path, none, [], own⟩, (), Tracked.start world⟩)
    (hrun : construct (trackPoll os) path (Tracked.start world) = .ok w t) : inv ⟨w, (), t⟩ := by
  have hends := preserves_poll_openFile os h (fun _ => id) _
    (hstart ⟨(trackPoll os).time (Tracked.start world), -1, -1⟩)
  rw [construct] at hrun
  cases hrun' : openFile (trackPoll os) ⟨⟨path, none, [],
      ⟨(trackPoll os).time (Tracked.start world), -1, -1⟩⟩, (), Tracked.start world⟩ with
  | ok u s =>
    rw [hrun'] at hends hrun
    cases hrun
    exact hends
  | error e s =>
    rw [hrun'] at hrun
    cases hrun

end

/-! ### Runs -/

section
variable {H ω α W : Type} {inv : TrackedCall H ω α W → Prop}

/-- One step. -/
theorem ends_of_inUse {after : TrackedCall H ω α W → Prop}
    {work : Prog (Nat × H) ω α (Tracked W) Unit} {s s' : TrackedCall H ω α W} {i : Use W}
    (h : Framed inv) (hafter : ∀ s, inv s → after s) (hwork : Preserves inv after work) (hs : inv s)
    (hstep : InUse work s i s') : after s' := by
  cases hstep with
  | changed world => exact hafter _ (h.world s world hs)
  | worked hrun => exact hafter _ ((hwork s hs).ok hrun)
  | caught hrun => exact (hwork s hs).error hrun

/-- The run lemma. -/
theorem invariant_of_reachable {init : TrackedCall H ω α W → Prop}
    {work : Prog (Nat × H) ω α (Tracked W) Unit} {s : TrackedCall H ω α W} (h : Framed inv)
    (hstart : ∀ s, init s → inv s) (hwork : Preserves inv inv work)
    (hreach : Reachable init (InUse work) s) : inv s :=
  hreach.invariant hstart fun _ _ _ hs hstep => ends_of_inUse h (fun _ => id) hwork hs hstep

end

end Blockad.Proofs
