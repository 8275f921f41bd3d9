import Blockad.Lib.Runs
import Blockad.Proofs.Operations
import Blockad.Proofs.UpdateWatchers

/-!
# `Blockad.Proofs.Pairing`: the open file and its watch

`fp` and `file_wd` are set and cleared together. `work` compares the descriptor of an event with
`file_wd` and reads the file if they are equal, so that `fp` must be set then. The descriptor of
the overflow event is -1, and so is `file_wd` while no file is open.

* `Paired`: the invariant, for any kernel and any client.
* `handleEvent_ends`: what one event preserves.
* `paired_of_reachable`: `fp` and `file_wd` go together in every run that handles no overflow
  event while no file is open, and that is what `readLines` needs.
-/

set_option autoImplicit false

namespace Blockad.Proofs

open Bytes Prog Runs Watcher InotifyWatcher

section
variable {H : Type}

/-- Either both are set, or none of them is. -/
def Paired (w : InotifyWatcher H) : Prop :=
  w.fp = none ∧ w.own.fileWd = -1 ∨ w.fp.isSome ∧ 0 ≤ w.own.fileWd

/-- A file is open exactly if it has a watch. -/
theorem Paired.iff {w : InotifyWatcher H} (h : Paired w) : w.fp.isSome ↔ 0 ≤ w.own.fileWd := by
  rcases h with ⟨hfp, hwd⟩ | ⟨hfp, hwd⟩
  · simp [hfp, hwd]
  · simp [hfp, hwd]

/-- An open file has a watch. -/
theorem Paired.fileWd_nonneg {w : InotifyWatcher H} (h : Paired w) (hfp : w.fp.isSome) :
    0 ≤ w.own.fileWd := h.iff.mp hfp

/-- Without an open file, there is no watch. -/
theorem Paired.fileWd_eq {w : InotifyWatcher H} (h : Paired w) (hfp : ¬ w.fp.isSome) :
    w.own.fileWd = -1 := by
  rcases h with ⟨-, hwd⟩ | ⟨hsome, -⟩
  · exact hwd
  · exact absurd hsome hfp

end

variable {H α W : Type}

/-- `inotify_add_watch` returns -1, which is an error, or a descriptor. -/
def ValidWatches (os : Syscalls H W) : Prop :=
  ∀ ifd path mask world wd world',
    os.inotifyAddWatch ifd path mask world = .ok wd world' → 0 ≤ wd

/-- The client does not run into undefined behavior of its own. -/
def Defined (callback : Callback H α) : Prop :=
  ∀ fp text a a', callback fp text a ≠ .error .undefined a'

section
variable {os : Syscalls H W} {callback : Callback H α} {s : Call H Inotify α W}

/-- `closeFile` ends with no file and no watch, or throws. -/
theorem closeFile_paired (hcallback : Defined callback) (hs : Paired s.self) :
    Ends (fun _ s' => Paired s'.self ∧ s'.self.fp = none) (fun h _ => h ≠ .undefined)
      (closeFile os callback s) := by
  refine closeFile_ends (fun hnone => ⟨hs, hnone⟩) fun f hf => ?_
  have hwd : 0 ≤ s.self.own.fileWd := hs.fileWd_nonneg (by simp [hf])
  -- The watch is there to be removed, before and after the pending line.
  have hremove (s₁ : Call H Inotify α W) (hwd₁ : 0 ≤ s₁.self.own.fileWd) :
      Ends (fun _ s₂ => Paired (closed os f s₂).self ∧ (closed os f s₂).self.fp = none)
        (fun h _ => h ≠ .undefined) (removeWatch os s₁) := by
    refine removeWatch_ends (fun hneg => by omega) (fun world _ _ => ⟨.inl ⟨rfl, rfl⟩, rfl⟩)
      (fun world _ _ => ⟨.inl ⟨rfl, rfl⟩, rfl⟩) ?_
    intro errno world _ _
    exact Halt.noConfusion
  refine flushLine_ends (fun _ => hremove s hwd) (fun client _ _ => hremove _ hwd) ?_
  rintro h client hcall rfl
  exact hcallback _ _ _ _ hcall

/-- `openFile` gives the file its watch, or throws. -/
theorem openFile_paired (hos : ValidWatches os) (hs : Paired s.self) :
    Ends (fun _ s' => Paired s'.self) (fun h _ => h ≠ .undefined) (openFile os s) := by
  refine openFile_ends (fun _ => hs) (fun _ _ _ => hs) (fun _ _ _ _ => Halt.noConfusion) ?_
    fun _ _ _ _ _ _ _ => Halt.noConfusion
  intro handle world wd world' _ _ hwd
  exact .inr ⟨rfl, hos _ _ _ _ _ _ hwd⟩

/-- Reading keeps the pair. A read error closes the file. -/
theorem readLines_paired (hcallback : Defined callback) (hs : Paired s.self)
    (hfp : s.self.fp.isSome) :
    Ends (fun _ s' => Paired s'.self) (fun h _ => h ≠ .undefined)
      (readLines os callback (closeFile os callback) s) := by
  have hkeep : Preserved callback (fun s' : Call H Inotify α W => Paired s'.self)
      (fun h _ => h ≠ .undefined) := by
    have hbyte (s : Call H Inotify α W) (c : UInt8) (hs : Paired s.self) :
        Paired (takeByte c s.self) := by
      rcases hs with ⟨hnone, hwd⟩ | ⟨hsome, hwd⟩
      · exact .inl ⟨by simp [takeByte, hnone], hwd⟩
      · exact .inr ⟨by simpa [takeByte] using hsome, hwd⟩
    refine ⟨fun s c _ => hbyte s c, fun s hs => ?_⟩
    have hs' := hbyte s nl hs
    unfold Watcher.processLine
    cases hcall : callback (takeByte nl s.self).fp (takeByte nl s.self).line s.client with
    | ok u client => exact hs'
    | error h client =>
      rintro rfl
      exact hcallback _ _ _ _ hcall
  refine readLines_ends hkeep (fun f s' errno _ _ hs' => ?_) hs hfp
  exact (closeFile_paired hcallback hs').mono (fun _ _ _ => Halt.noConfusion) fun _ _ => id

/-- **The step lemma.** -/
theorem handleEvent_ends (hos : ValidWatches os) (hcallback : Defined callback)
    (hs : Paired s.self) {event : InotifyEvent} (hopen : event.wd = -1 → s.self.fp.isSome) :
    Ends (fun _ s' => Paired s'.self) (fun h _ => h ≠ .undefined)
      (handleEvent os callback event s) := by
  have hfile : Ends (fun _ s₁ => Paired s₁.self) (fun h _ => h ≠ .undefined)
      (fileEvent os callback event s) := by
    refine fileEvent_ends (fun _ => hs) fun hwd => ?_
    have hfp : s.self.fp.isSome := by
      -- With no file open, only the overflow event has the descriptor.
      by_contra hnone
      exact hnone (hopen (hwd.trans (hs.fileWd_eq hnone)))
    refine (readLines_paired hcallback hs hfp).mono (fun _ s₁ hs₁ => ⟨fun _ => ?_, fun _ => hs₁⟩)
      fun _ _ => id
    exact (closeFile_paired hcallback hs₁).mono (fun _ _ h => h.1) fun _ _ => id
  refine .bind (hfile.mono (fun _ s₁ hs₁ => dirEvent_ends (fun _ => hs₁) fun _ => ?_) fun _ _ => id)
  refine (closeFile_paired hcallback hs₁).mono (fun _ s₂ hs₂ => ?_) fun _ _ => id
  refine (openFile_paired hos hs₂.1).mono (fun _ s₃ hs₃ => ?_) fun _ _ => id
  exact ⟨readLines_paired hcallback hs₃, fun _ => hs₃⟩

/-- With no file open, the descriptor -1 makes `readLines` run on NULL. -/
theorem handleEvent_undefined (hs : Paired s.self) {event : InotifyEvent} (hwd : event.wd = -1)
    (hfp : s.self.fp = none) : handleEvent os callback event s = .error .undefined s := by
  have hmatch : event.wd = s.self.own.fileWd := by
    rw [hwd, hs.fileWd_eq (by simp [hfp])]
  have hread : readLines os callback (closeFile os callback) s = .error .undefined s := by
    obtain ⟨⟨p, fp, line, own⟩, client, w⟩ := s
    cases hfp
    rfl
  have hfile : fileEvent os callback event s = .error .undefined s := by
    show (if event.wd == s.self.own.fileWd then (_ : Prog H Inotify α W Unit) else _) s = _
    rw [if_pos (by simpa using hmatch)]
    exact bind_of_error hread
  exact bind_of_error hfile

end

/-! ### Runs -/

section
variable (os : Syscalls H W) (callback : Callback H α)

/-- A watcher that was constructed, in any world and for any client. -/
def Made (s : Call H Inotify α W) : Prop :=
  ∃ path world world', construct os path world = .ok s.self world'

/-- What happens. -/
inductive Occurrence where
  | elsewhere
  | handled (event : InotifyEvent)

/-- The world and the client change as they like, or the watcher handles an event. -/
inductive Occurs : Call H Inotify α W → Occurrence → Call H Inotify α W → Prop where
  | elsewhere {s : Call H Inotify α W} (client : α) (world : W) :
      Occurs s .elsewhere ⟨s.self, client, world⟩
  | handled {s s' : Call H Inotify α W} {event : InotifyEvent}
      (h : handleEvent os callback event s = .ok () s') : Occurs s (.handled event) s'

/-- No overflow is handled while no file is open. -/
def NoOverflow (s : Call H Inotify α W) : Occurrence → Prop
  | .elsewhere => True
  | .handled event => event.wd = -1 → s.self.fp.isSome

variable {os callback}

/-- A new watcher has both or neither. -/
theorem paired_of_made (hos : ValidWatches os) {s : Call H Inotify α W} (h : Made os s) :
    Paired s.self := by
  obtain ⟨path, world, world', hmade⟩ := h
  have hpaired : Paired (⟨s.self, (), world'⟩ : Call H Inotify Unit W).self :=
    @of_construct H W os (fun s => Paired s.self) path world world' s.self hmade
      (fun ifd w₁ dirWd w₂ _ _ =>
        -- No file is open yet.
        (openFile_paired hos (.inl ⟨rfl, rfl⟩)).mono (fun _ _ => id) fun _ _ _ => trivial)
      fun hs hfp _ => .inr ⟨rfl, hs.fileWd_nonneg (by rw [hfp]; rfl)⟩
  exact hpaired

/-- **One step** that is no overflow. -/
theorem paired_step (hos : ValidWatches os) (hcallback : Defined callback)
    {s s' : Call H Inotify α W} {o : Occurrence} (hs : Paired s.self)
    (h : Guarded (Occurs os callback) NoOverflow s o s') : Paired s'.self := by
  obtain ⟨hopen, hstep⟩ := h
  cases hstep with
  | elsewhere client world => exact hs
  | handled hrun => exact (handleEvent_ends hos hcallback hs hopen).ok hrun

/-- **The open file and its watch go together.** -/
theorem paired_of_reachable (hos : ValidWatches os) (hcallback : Defined callback)
    {s : Call H Inotify α W}
    (h : Reachable (Made os) (Guarded (Occurs os callback) NoOverflow) s) :
    (s.self.fp.isSome ↔ 0 ≤ s.self.own.fileWd) ∧
      ∀ event : InotifyEvent, (∀ s', handleEvent os callback event s ≠ .error .undefined s') ↔
        NoOverflow s (.handled event) := by
  have hs : Paired s.self := @Reachable.invariant _ _ _ _ (fun s => Paired s.self) _ h
    (fun _ => paired_of_made hos) fun _ _ _ => paired_step hos hcallback
  refine ⟨hs.iff, fun event => ⟨?_, ?_⟩⟩
  · intro hdefined hwd
    by_contra hnone
    exact hdefined s (handleEvent_undefined hs hwd (by simpa using hnone))
  · intro hopen s' hrun
    exact (handleEvent_ends hos hcallback hs hopen).error hrun rfl

end

/-! ### A missing file -/

/-- A new watcher of a file that does not exist. -/
def watchingMissing : Call Unit Inotify Unit Unit :=
  ⟨⟨lit "/log", none, [], ⟨lit "log", lit "/", 3, -1, 1⟩⟩, (), ()⟩

/-- The watcher of a missing file can be made. -/
theorem made_watchingMissing : Made noFiles watchingMissing := ⟨lit "/log", (), (), rfl⟩

/-- A kernel with an empty file at each path. -/
def emptyFiles : Syscalls Unit Unit :=
  { noFiles with
    inotifyAddWatch := fun _ path _ => pure (if path = lit "/" then 1 else 2)
    fopen := fun _ => pure () }

/-- A new watcher of such a file. -/
def watchingEmpty : Call Unit Inotify Unit Unit :=
  ⟨⟨lit "/log", some ⟨(), 0⟩, [], ⟨lit "log", lit "/", 3, 2, 1⟩⟩, (), ()⟩

/-- So can that of an empty one. -/
theorem made_watchingEmpty : Made emptyFiles watchingEmpty := ⟨lit "/log", (), (), rfl⟩

/-- The file is read, then it leaves the path, and then there is another one. -/
theorem paired_of_reachable_watchingEmpty :
    ∃ left back : Call Unit Inotify Unit Unit, left.self.fp = none ∧ back.self.fp.isSome ∧
      (left.self.fp.isSome ↔ 0 ≤ left.self.own.fileWd) ∧
        (back.self.fp.isSome ↔ 0 ≤ back.self.own.fileWd) := by
  have hos : ValidWatches emptyFiles := by
    intro ifd path mask world wd world' h
    cases h
    split <;> decide
  have hcallback : Defined fun (_ : Option (File Unit)) _ (_ : Unit) => .ok () () :=
    fun _ _ _ _ => nofun
  have hsafe (s : Call Unit Inotify Unit Unit) (event : InotifyEvent) (hwd : event.wd ≠ -1) :
      NoOverflow s (.handled event) := fun heq => absurd heq hwd
  have hread : Reachable (Made emptyFiles)
      (Guarded (Occurs emptyFiles fun _ _ _ => .ok () ()) NoOverflow) watchingEmpty :=
    .next (.handled ⟨2, .modify, []⟩) (.start made_watchingEmpty)
      ⟨hsafe _ _ (by decide), .handled rfl⟩
  have hleft := Reachable.next (.handled ⟨2, .moveSelf, []⟩) hread
    ⟨hsafe _ _ (by decide), .handled rfl⟩
  have hback := Reachable.next (.handled ⟨1, .create, lit "log"⟩) hleft
    ⟨hsafe _ _ (by decide), .handled rfl⟩
  exact ⟨_, _, rfl, rfl, (paired_of_reachable hos hcallback hleft).1,
    (paired_of_reachable hos hcallback hback).1⟩

/-- An overflow while the file is missing. -/
theorem not_paired :
    Reachable (Made noFiles) (Occurs noFiles fun _ _ _ => .ok () ()) watchingMissing ∧
      handleEvent noFiles (fun _ _ _ => .ok () ()) ⟨-1, .queueOverflow, []⟩ watchingMissing =
        .error .undefined watchingMissing :=
  ⟨.start made_watchingMissing, rfl⟩

end Blockad.Proofs
