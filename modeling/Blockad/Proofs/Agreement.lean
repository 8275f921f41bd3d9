import Blockad.Proofs.Polling

/-!
# `Blockad.Proofs.Agreement`: the two watchers of a file that stays

An `InotifyWatcher` and a `PollingWatcher` are constructed for one file, or for one that is
created later. Bytes are appended to it, and each watcher works from time to time. Both read all
that is written. An `InotifyWatcher` starts at the end of the file that is there already, and a
`PollingWatcher` at its start.

* `Notified`, `Polled`: the invariants of the two runs.
* `texts_of_notified`, `texts_of_polled`: what each watcher has passed when it has caught up.
* `watchers_agree_iff`: they agree exactly when what the file held at first adds no line and
  lengthens none.
-/

set_option autoImplicit false

namespace Blockad.Proofs

open Bytes Lines Pieces Prog Runs Watcher

variable {α : Type}

/-! ### Runs -/

/-- A watcher and its environment. `written` is what was appended since the construction. The
watcher has caught up if it worked since the last append. -/
structure Observed (ω α : Type) where
  call : Tapped Handle ω α Filesystem
  written : Bytes
  caughtUp : Bool
  worked : Bool

/-- The texts that were passed so far. -/
def Observed.texts {ω : Type} (s : Observed ω α) : List Bytes := s.call.client.2

/-- The file at the path. -/
def Observed.occupant {ω : Type} (s : Observed ω α) : Option Nat := s.call.world.files.occupant

/-- What happens. -/
inductive Growth where
  | appended (chunk : Bytes)
  | created
  | worked

/-- The file is appended to, created if there is none, or the watcher works. -/
inductive Grows {ω : Type} (path : Bytes)
    (work : Tapped Handle ω α Filesystem → Tapped Handle ω α Filesystem → Prop) :
    Observed ω α → Growth → Observed ω α → Prop where
  | appended {s : Observed ω α} {i : Nat} (chunk : Bytes) (h : s.occupant = some i) :
      Grows path work s (.appended chunk)
        { s with
          call.world := s.call.world.change (cstr (getBaseName path)) (.append i chunk)
          written := s.written ++ chunk
          caughtUp := false }
  | created {s : Observed ω α} (h : s.occupant = none) (hname : cstr (getBaseName path) ≠ []) :
      Grows path work s .created
        { s with call.world := s.call.world.change (cstr (getBaseName path)) .create }
  | worked {s : Observed ω α} {call : Tapped Handle ω α Filesystem} (h : work s.call call) :
      Grows path work s .worked { s with call, caughtUp := true, worked := true }

variable (path : Bytes) (callback : Callback Handle α)

/-- `InotifyWatcher::work`, which reads one event at least if there is one. -/
def InotifyWorks (c c' : Tapped Handle Inotify α Filesystem) : Prop :=
  ∃ k, 0 < k ∧ InotifyWatcher.work (kernel path k) (tap callback) c = .ok () c'

/-- `PollingWatcher::work`. -/
def PollingWorks (c c' : Tapped Handle Polling α Filesystem) : Prop :=
  ∃ now, PollingWatcher.work (pollKernel path now) (tap callback) c = .ok () c'

/-- A new watcher, with a client that has not been called. -/
structure Fresh {ω : Type} (s : Observed ω α) : Prop where
  texts : s.texts = []
  written : s.written = []
  caughtUp : s.caughtUp = true
  worked : s.worked = false

/-- An `InotifyWatcher` was constructed in the file system `fs`. -/
def InotifyStarts (fs : Filesystem) (s : Observed Inotify α) : Prop :=
  InotifyWatcher.construct (kernel path 0) path fs = .ok s.call.self s.call.world ∧ Fresh s

/-- A `PollingWatcher` was constructed in the file system `fs`. -/
def PollingStarts (fs : Filesystem) (s : Observed Polling α) : Prop :=
  ∃ now, PollingWatcher.construct (pollKernel path now) path fs = .ok s.call.self s.call.world ∧
    Fresh s

/-- What the file holds at first. -/
def heldIn (fs : Filesystem) : Bytes :=
  match fs.files.occupant with
  | none => []
  | some i => fs.files.content i

/-! ### With inotify -/

variable {path callback}

/-- What holds of the watcher all the time. -/
structure Attached (path : Bytes) (c : Tapped Handle Inotify α Filesystem) : Prop where
  wired : Wired path ⟨c.self, [], c.world⟩
  base : c.self.own.base = getBaseName path

/-- The invariant, for a file that held `old` at first: the file is missing, it was created and
the event is on its way, or it is open and watched. -/
inductive Notified (path old : Bytes) (s : Observed Inotify α) : Prop where
  | missing (hattached : Attached path s.call) (hfp : s.call.self.fp = none)
      (hwd : s.call.self.own.fileWd = -1) (hocc : s.occupant = none) (hold : old = [])
      (hwritten : s.written = []) (hqueue : s.call.world.inotify.queue = [])
      (hwatches : s.call.world.inotify.watches = []) (hline : s.call.self.line = [])
      (htexts : s.texts = [])
  | created {i : Nat} (hattached : Attached path s.call) (hfp : s.call.self.fp = none)
      (hwd : s.call.self.own.fileWd = -1) (hocc : s.occupant = some i) (hold : old = [])
      (hcontent : s.call.world.files.content i = s.written)
      (hname : cstr (getBaseName path) ≠ [])
      (hqueue : s.call.world.inotify.queue = [⟨dirWd, .create, cstr (getBaseName path)⟩])
      (hwatches : s.call.world.inotify.watches = []) (hline : s.call.self.line = [])
      (htexts : s.texts = []) (hcaught : s.caughtUp = true → s.written = [])
  | opened {f : File Handle} (hattached : Attached path s.call) (hcuts : Cuts f s.call)
      (hoffset : f.offset = old.length) (hocc : s.occupant = some f.handle.inode)
      (hcontent : contentOf f.handle s.call = old ++ s.written)
      (hwatches : s.call.world.inotify.watches = [(s.call.self.own.fileWd, f.handle.inode)])
      (hqueue : s.call.world.inotify.queue = [⟨s.call.self.own.fileWd, .modify, []⟩] ∨
        s.call.world.inotify.queue = [] ∧
          offsetOf s.call = (contentOf f.handle s.call).length)
      (hcaught : s.caughtUp = true → offsetOf s.call = (contentOf f.handle s.call).length)

/-- The watcher when it has read `k` events. -/
def afterEvents (k : Nat) (c : Tapped Handle Inotify α Filesystem) :
    Tapped Handle Inotify α Filesystem :=
  { c with world.inotify.queue := c.world.inotify.queue.drop k }

/-- `work` reads at most `k` events, and handles them in order. -/
theorem inotify_work_eq (k : Nat) (c : Tapped Handle Inotify α Filesystem) :
    InotifyWatcher.work (kernel path k) (tap callback) c =
      (c.world.inotify.queue.take k).forM
        (InotifyWatcher.handleEvent (kernel path k) (tap callback)) (afterEvents k c) := rfl

/-- There is no event to read. -/
theorem inotify_work_of_idle {k : Nat} {c : Tapped Handle Inotify α Filesystem}
    (hqueue : c.world.inotify.queue = []) :
    InotifyWatcher.work (kernel path k) (tap callback) c = .ok () c := by
  have hnone : afterEvents k c = c := by
    obtain ⟨self, client, ⟨files, ⟨watches, nextWd, queue⟩⟩⟩ := c
    obtain rfl : queue = [] := hqueue
    show (⟨self, client, files, watches, nextWd, List.drop k []⟩ :
      Tapped Handle Inotify α Filesystem) = _
    rw [List.drop_nil]
  rw [inotify_work_eq, hqueue, hnone, List.take_nil]
  rfl

/-- There is one event to read. -/
theorem inotify_work_of_single {k : Nat} {c : Tapped Handle Inotify α Filesystem}
    {event : InotifyEvent} (hk : 0 < k) (hqueue : c.world.inotify.queue = [event])
    {post : Unit → Tapped Handle Inotify α Filesystem → Prop}
    {fail : Halt → Tapped Handle Inotify α Filesystem → Prop}
    (h : Ends post fail (InotifyWatcher.handleEvent (kernel path k) (tap callback) event
      { c with world.inotify.queue := [] })) :
    Ends post fail (InotifyWatcher.work (kernel path k) (tap callback) c) := by
  have hdrop : afterEvents k c = { c with world.inotify.queue := [] } := by
    rw [afterEvents, hqueue, List.drop_eq_nil_of_le hk]
  rw [inotify_work_eq, hqueue, hdrop, List.take_of_length_le hk]
  exact .bind (h.mono (fun _ _ => id) fun _ _ => id)

/-- Two watchers that differ in what they have read only. -/
structure SameButRead {ω : Type} (c c' : Tapped Handle ω α Filesystem) : Prop where
  path : c'.self.path = c.self.path
  own : c'.self.own = c.self.own
  world : c'.world = c.world

/-- Reading changes no content. -/
theorem SameButRead.contentOf_eq {ω : Type} {c c' : Tapped Handle ω α Filesystem}
    (h : SameButRead c c') (handle : Handle) : contentOf handle c' = contentOf handle c := by
  rw [contentOf, contentOf, h.world]

/-- It changes nothing at the path. -/
theorem SameButRead.occupant_eq {ω : Type} {c c' : Tapped Handle ω α Filesystem}
    (h : SameButRead c c') : c'.world.files.occupant = c.world.files.occupant := by
  rw [h.world]

/-- A watcher that has read the file `f` to its end. -/
structure AtEnd {ω : Type} (f : File Handle) (c : Tapped Handle ω α Filesystem) : Prop where
  cuts : Cuts f c
  offset : offsetOf c = (contentOf f.handle c).length

/-- After `readLines`, all of the content was cut into lines. -/
theorem readLines_catchesUp {ω : Type} {k : Nat} (hquiet : Quiet callback)
    {close : Prog Handle ω (α × List Bytes) Filesystem Unit} {f : File Handle}
    {c : Tapped Handle ω α Filesystem} (hcuts : Cuts f c) :
    Ends (fun _ c' => AtEnd f c' ∧ SameButRead c c') (fun _ _ => False)
      (readLines (kernel path k) (tap callback) close c) := by
  obtain ⟨c', hrun, hcuts', hpath, hown, hworld, hoffset⟩ :=
    cuts_of_read path k close hquiet hcuts
  have hsame : SameButRead c c' := ⟨hpath, hown, hworld⟩
  rw [hrun]
  exact ⟨⟨hcuts', by rw [hoffset, hsame.contentOf_eq]⟩, hsame⟩

/-- A file that is being cut is open. -/
theorem isSome_of_cuts {ω : Type} {f : File Handle} {c : Tapped Handle ω α Filesystem}
    (h : Cuts f c) : c.self.fp.isSome := by
  obtain ⟨n, hfp, -⟩ := h
  rw [hfp]
  rfl

/-- An event of the open file. -/
theorem handleEvent_modify {k : Nat} (hquiet : Quiet callback) {f : File Handle}
    {c : Tapped Handle Inotify α Filesystem} (hcuts : Cuts f c) :
    Ends (fun _ c' => AtEnd f c' ∧ SameButRead c c') (fun _ _ => False)
      (InotifyWatcher.handleEvent (kernel path k) (tap callback)
        ⟨c.self.own.fileWd, .modify, []⟩ c) := by
  refine .bind ((fileEvent_ends (fun hne => absurd rfl hne) fun _ => ?_ :
    Ends (fun _ c' => AtEnd f c' ∧ SameButRead c c') (fun _ _ => False) _).mono
      (fun _ c' h => dirEvent_ends (fun _ => h) fun habout => ?_) fun _ _ => id)
  · refine (readLines_catchesUp hquiet hcuts).mono (fun _ c' h => ⟨fun hmask => ?_, fun _ => h⟩)
      fun _ _ => id
    rcases hmask with hmask | hmask <;> cases hmask
  · simp [aboutName] at habout

/-- The event that the file was created. -/
theorem handleEvent_create {k : Nat} (hquiet : Quiet callback) {i : Nat}
    {c : Tapped Handle Inotify α Filesystem} (hattached : Attached path c)
    (hfp : c.self.fp = none) (hwd : c.self.own.fileWd = -1)
    (hocc : c.world.files.occupant = some i) (hname : cstr (getBaseName path) ≠ [])
    (hline : c.self.line = []) (htexts : c.client.2 = []) :
    Ends (fun _ c' => AtEnd ⟨c.world.files.handle i, 0⟩ c' ∧ SameButRead (reopen c) c')
      (fun _ _ => False)
      (InotifyWatcher.handleEvent (kernel path k) (tap callback)
        ⟨dirWd, .create, cstr (getBaseName path)⟩ c) := by
  have hfile : Ends (fun _ c₁ => c₁ = c) (fun _ _ => False)
      (InotifyWatcher.fileEvent (kernel path k) (tap callback)
        ⟨dirWd, .create, cstr (getBaseName path)⟩ c) :=
    fileEvent_ends (fun _ => rfl) fun heq => absurd (heq.trans hwd) (by simp [dirWd])
  -- No file has the descriptor of the directory, so only its second test is met.
  refine .bind (hfile.mono (fun _ c₁ hc₁ => ?_) fun _ _ => False.elim)
  subst hc₁
  have habout : aboutName c₁.self.own ⟨dirWd, .create, cstr (getBaseName path)⟩ = true := by
    have hdirWd : c₁.self.own.dirWd = dirWd := hattached.wired.dirWd_eq
    simp [aboutName, hdirWd, hattached.base, hname]
  refine dirEvent_ends (fun hno => by rw [habout] at hno; cases hno) fun _ => ?_
  refine closeFile_ends (fun _ => ?_) fun f hf => by rw [hfp] at hf; cases hf
  rw [openFile_eq (c := c₁) hattached.wired.path_eq hattached.wired.path_ne]
  have hopened : (reopen c₁).self.fp = some ⟨c₁.world.files.handle i, 0⟩ := by
    rw [fp_reopen hfp, hocc]
    rfl
  have hcuts : Cuts ⟨c₁.world.files.handle i, 0⟩ (reopen c₁) := by
    refine cuts_of_opened ⟨hopened, Nat.zero_le _, ?_, ?_⟩
    · rw [line_reopen, hline]
    · rw [client_reopen, htexts]
  refine ⟨fun _ => ?_, fun hnone => by rw [hopened] at hnone; cases hnone⟩
  exact readLines_catchesUp hquiet hcuts

/-- The queue was read. -/
theorem Attached.of_emptied {c : Tapped Handle Inotify α Filesystem} (h : Attached path c) :
    Attached path { c with world.inotify.queue := [] } :=
  ⟨h.wired.of_fewer rfl rfl h.wired.fileWd_ne (.of_eq rfl rfl), h.base⟩

/-- Reading leaves the watcher at its path. -/
theorem Attached.of_same {c c' : Tapped Handle Inotify α Filesystem} (h : Attached path c)
    (hsame : SameButRead c c') : Attached path c' := by
  have hw : c'.world.inotify = c.world.inotify := by rw [hsame.world]
  refine ⟨h.wired.of_fewer hsame.path ?_ ?_ (.of_eq ?_ ?_), by rw [hsame.own, h.base]⟩
  · rw [hsame.own]
  · rw [hsame.own]
    exact h.wired.fileWd_ne
  · rw [hw]
  · rw [hw]

/-- Opening the file when nothing is watched. -/
theorem reopen_of_unwatched {β : Type} {c : Call Handle Inotify β Filesystem} {i : Nat}
    (hfp : c.self.fp = none) (hocc : c.world.files.occupant = some i)
    (hwatches : c.world.inotify.watches = []) :
    (reopen c).self.path = c.self.path ∧
      (reopen c).self.own = { c.self.own with fileWd := c.world.inotify.nextWd } ∧
      (reopen c).world.inotify = { c.world.inotify with
        watches := [(c.world.inotify.nextWd, i)], nextWd := c.world.inotify.nextWd + 1 } := by
  unfold reopen
  rw [hfp, hocc]
  simp [Notifier.addWatch, hwatches]

/-- Opening a file adds the one watch of it. -/
theorem attached_reopen {c : Tapped Handle Inotify α Filesystem} {i : Nat}
    (h : Attached path c) (hfp : c.self.fp = none) (hocc : c.world.files.occupant = some i)
    (hwatches : c.world.inotify.watches = []) {c' : Tapped Handle Inotify α Filesystem}
    (hsame : SameButRead (reopen c) c') :
    Attached path c' ∧ c'.world.inotify.watches = [(c'.self.own.fileWd, i)] := by
  obtain ⟨hpath, hown, hinotify⟩ := reopen_of_unwatched hfp hocc hwatches
  have hlt := h.wired.lt_nextWd
  have hfileWd : c'.self.own.fileWd = c.world.inotify.nextWd := by rw [hsame.own, hown]
  refine ⟨⟨⟨h.wired.path_ne, ?_, ?_, ?_, ?_, ?_⟩, ?_⟩, ?_⟩
  · show c'.self.path = path
    rw [hsame.path, hpath]
    exact h.wired.path_eq
  · show c'.self.own.dirWd = dirWd
    rw [hsame.own, hown]
    exact h.wired.dirWd_eq
  · show c'.self.own.fileWd ≠ dirWd
    rw [hfileWd]
    exact Int.ne_of_gt hlt
  · show dirWd < c'.world.inotify.nextWd
    rw [hsame.world, hinotify]
    exact Int.lt_add_one_of_le (Int.le_of_lt hlt)
  · show ∀ watch ∈ c'.world.inotify.watches, dirWd < watch.1
    rw [hsame.world, hinotify]
    intro watch hwatch
    rw [List.mem_singleton.mp hwatch]
    exact hlt
  · rw [hsame.own, hown]
    exact h.base
  · rw [hsame.world, hinotify, hfileWd]

/-! ### The runs with inotify -/

/-- **A `work`.** -/
theorem notified_work {k : Nat} {old : Bytes} (hquiet : Quiet callback) (hk : 0 < k)
    {s : Observed Inotify α} (hs : Notified path old s) :
    Ends (fun _ c' => Notified path old { s with call := c', caughtUp := true, worked := true })
      (fun _ _ => False) (InotifyWatcher.work (kernel path k) (tap callback) s.call) := by
  cases hs with
  | missing hattached hfp hwd hocc hold hwritten hqueue hwatches hline htexts =>
    rw [inotify_work_of_idle hqueue]
    exact .missing hattached hfp hwd hocc hold hwritten hqueue hwatches hline htexts
  | @created i hattached hfp hwd hocc hold hcontent hname hqueue hwatches hline htexts hcaught =>
    refine inotify_work_of_single hk hqueue ?_
    let c : Tapped Handle Inotify α Filesystem := { s.call with world.inotify.queue := [] }
    have hattached' : Attached path c := hattached.of_emptied
    refine (handleEvent_create hquiet hattached' hfp hwd hocc hname hline htexts).mono
      (fun _ c' hcreated => ?_) fun _ _ => id
    obtain ⟨⟨hcuts, hend⟩, hsame⟩ := hcreated
    -- The event makes the watcher open the file, and read what was written in the meantime.
    obtain ⟨hattached₁, hwatches₁⟩ := attached_reopen hattached' hfp hocc hwatches hsame
    have hfiles : c'.world.files = s.call.world.files := by rw [hsame.world, files_reopen]
    have hqueue₁ : c'.world.inotify.queue = [] := by
      rw [hsame.world, (reopen_of_unwatched (c := c) hfp hocc hwatches).2.2]
    have hcontent₁ : contentOf (s.call.world.files.handle i) c' = s.written := by
      rw [contentOf, hfiles]
      exact hcontent
    refine .opened hattached₁ hcuts ?_ ?_ ?_ hwatches₁ (.inr ⟨hqueue₁, hend⟩) fun _ => hend
    · rw [hold]
      rfl
    · show c'.world.files.occupant = some i
      rw [hfiles]
      exact hocc
    · rw [hold]
      exact hcontent₁
  | @opened f hattached hcuts hoffset hocc hcontent hwatches hqueue hcaught =>
    -- One event is enough, since repeated ones are left out of the queue.
    rcases hqueue with hqueue | ⟨hqueue, hend⟩
    · refine inotify_work_of_single hk hqueue ?_
      let c : Tapped Handle Inotify α Filesystem := { s.call with world.inotify.queue := [] }
      have hcuts' : Cuts f c := hcuts
      refine (handleEvent_modify hquiet hcuts').mono (fun _ c' hmodified => ?_) fun _ _ => id
      obtain ⟨⟨hcuts₁, hend⟩, hsame⟩ := hmodified
      refine .opened (hattached.of_emptied.of_same hsame) hcuts₁ hoffset
        (hsame.occupant_eq.trans hocc) ((hsame.contentOf_eq _).trans hcontent) ?_ (.inr ⟨?_, hend⟩)
        fun _ => hend
      · rw [hsame.world, hsame.own]
        exact hwatches
      · rw [hsame.world]
    · rw [inotify_work_of_idle hqueue]
      exact .opened hattached hcuts hoffset hocc hcontent hwatches (.inr ⟨hqueue, hend⟩)
        fun _ => hend

/-- A change leaves the watcher at its path. -/
theorem attached_change {c : Tapped Handle Inotify α Filesystem} (h : Attached path c)
    (change : Change) :
    Attached path { c with world := c.world.change (cstr (getBaseName path)) change } :=
  ⟨h.wired.of_fewer rfl rfl h.wired.fileWd_ne (.change _ _ _), h.base⟩

/-- A file without a watch makes no event. -/
theorem notifySelf_of_unwatched {n : Notifier} (h : n.watches = []) (i : Nat)
    (mask : EventKind) : n.notifySelf i mask = n := by
  rw [Notifier.notifySelf, h]
  rfl

/-- A file with one watch makes one event. -/
theorem notifySelf_of_single {n : Notifier} {wd : Int} {i : Nat} (h : n.watches = [(wd, i)])
    (mask : EventKind) : n.notifySelf i mask = n.notify ⟨wd, mask, []⟩ := by
  rw [Notifier.notifySelf, h, List.filter_cons_of_pos (by simp)]
  rfl

/-- **One step** of the watcher that uses inotify. -/
theorem notified_step {old : Bytes} (hquiet : Quiet callback) {s s' : Observed Inotify α}
    {g : Growth} (hs : Notified path old s) (h : Grows path (InotifyWorks path callback) s g s') :
    Notified path old s' := by
  cases h with
  | worked h =>
    obtain ⟨k, hk, hrun⟩ := h
    exact (notified_work hquiet hk hs).ok hrun
  | created hnone hname =>
    cases hs with
    | missing hattached hfp hwd hocc hold hwritten hqueue hwatches hline htexts =>
      refine .created (i := s.call.world.files.freshInode) (attached_change hattached .create) hfp
        hwd rfl hold ?_ hname ?_ ?_ hline htexts fun _ => hwritten
      · rw [hwritten]
        exact Function.update_self ..
      · show (s.call.world.inotify.notify _).queue = _
        rw [Notifier.notify, if_neg (by simp [hqueue]), hqueue]
        rfl
      · show (s.call.world.inotify.notify _).watches = _
        rw [watches_notify, hwatches]
    | created hattached hfp hwd hocc => cases hocc.symm.trans hnone
    | opened hattached hcuts hoffset hocc => cases hocc.symm.trans hnone
  | appended chunk hthere =>
    cases hs with
    | missing hattached hfp hwd hocc => cases hocc.symm.trans hthere
    | created hattached hfp hwd hocc hold hcontent hname hqueue hwatches hline htexts hcaught =>
      cases hocc.symm.trans hthere
      -- Nobody watches the new file yet, so its appends leave no event.
      have hquietly := notifySelf_of_unwatched hwatches
      refine .created (attached_change hattached (.append _ chunk)) hfp hwd hocc hold ?_ hname ?_ ?_
        hline htexts nofun
      · show Function.update _ _ _ _ = _
        rw [Function.update_self, hcontent]
      · show (s.call.world.inotify.notifySelf _ .modify).queue = _
        rw [hquietly, hqueue]
      · show (s.call.world.inotify.notifySelf _ .modify).watches = _
        rw [hquietly, hwatches]
    | @opened f hattached hcuts hoffset hocc hcontent hwatches hqueue hcaught =>
      cases hocc.symm.trans hthere
      have hnotify := notifySelf_of_single hwatches .modify
      refine .opened (attached_change hattached (.append _ chunk))
        (cuts_of_appended hcuts _ chunk) hoffset hocc ?_ ?_ (.inl ?_) nofun
      · show Function.update _ _ _ _ = _
        rw [Function.update_self, ← List.append_assoc, ← hcontent]
        rfl
      · show (s.call.world.inotify.notifySelf _ .modify).watches = _
        rw [watches_notifySelf, hwatches]
      · show (s.call.world.inotify.notifySelf _ .modify).queue = _
        -- An event that repeats the last one is left out.
        rw [hnotify, Notifier.notify]
        rcases hqueue with hqueue | ⟨hqueue, -⟩
        · rw [if_pos (by rw [hqueue]; rfl), hqueue]
        · rw [if_neg (by simp [hqueue])]
          show s.call.world.inotify.queue ++ _ = _
          rw [hqueue]
          rfl

/-- **The constructor.** -/
theorem notified_of_starts {fs : Filesystem} {s : Observed Inotify α}
    (hfs : Monitored.Unwatched fs) (hdir : cstr path ≠ cstr (getDirName path))
    (h : InotifyStarts path fs s) : Notified path (heldIn fs) s := by
  obtain ⟨hmade, hfresh⟩ := h
  unfold InotifyWatcher.construct at hmade
  dsimp only at hmade
  rw [start_eq hdir] at hmade
  obtain ⟨hself, hworld⟩ := EStateM.Result.ok.inj hmade
  obtain ⟨htexts, hwritten, hcaught, -⟩ := hfresh
  cases hocc : fs.files.occupant with
  | none =>
    have hmissing : reopen (unopened path fs) = unopened path fs := by
      unfold reopen
      dsimp only [unopened]
      rw [hocc]
    rw [hmissing] at hself hworld
    have hself : s.call.self = (unopened path fs).self := hself.symm
    have hworld : s.call.world = fs := hworld.symm
    have hwired : Wired path ⟨s.call.self, [], s.call.world⟩ := by
      rw [hself, hworld]
      exact ⟨hdir, rfl, rfl, by simp [unopened, dirWd], by simp [hfs.inotify, dirWd],
        by simp [hfs.inotify]⟩
    refine .missing ⟨hwired, by rw [hself]; rfl⟩ (by rw [hself]; rfl) (by rw [hself]; rfl) ?_ ?_
      hwritten (by rw [hworld, hfs.inotify]) (by rw [hworld, hfs.inotify]) (by rw [hself]; rfl)
      htexts
    · rw [Observed.occupant, hworld, hocc]
    · rw [heldIn, hocc]
  | some i =>
    -- The constructor goes to the end of a file that it finds.
    let f : File Handle := ⟨fs.files.handle i, (fs.files.content i).length⟩
    have hself : s.call.self = ⟨path, some f, [], ⟨getBaseName path, getDirName path, 3,
        dirWd + 1, dirWd⟩⟩ := by
      rw [← hself]
      simp [reopen, unopened, hocc, atEnd, Notifier.addWatch, hfs.inotify, f, Files.handle]
    have hworld : s.call.world = ⟨fs.files, [(dirWd + 1, i)], dirWd + 1 + 1, []⟩ := by
      rw [← hworld]
      simp [reopen, unopened, hocc, Notifier.addWatch, hfs.inotify]
    have hwired : Wired path ⟨s.call.self, [], s.call.world⟩ := by
      rw [hself, hworld]
      exact ⟨hdir, rfl, rfl, by simp [dirWd], by simp [dirWd], by simp [dirWd]⟩
    have hcontent : contentOf f.handle s.call = fs.files.content i := by
      rw [contentOf, hworld]
      rfl
    have hend : offsetOf s.call = (contentOf f.handle s.call).length := by
      rw [offsetOf, hself, hcontent]
      rfl
    have hopened : Opened f s.call :=
      ⟨by rw [hself], by rw [hcontent], by rw [hself], htexts⟩
    have hold : heldIn fs = fs.files.content i := by rw [heldIn, hocc]
    refine .opened ⟨hwired, by rw [hself]⟩ (cuts_of_opened hopened) ?_ ?_ ?_ ?_ (.inr ⟨?_, hend⟩)
      fun _ => hend
    · rw [hold]
    · rw [Observed.occupant, hworld, hocc]
      rfl
    · rw [hcontent, hold, hwritten, List.append_nil]
    · rw [hworld, hself]
      rfl
    · rw [hworld]

/-- What has been passed when the watcher has caught up: the lines that were written. -/
theorem texts_of_notified {old : Bytes} {s : Observed Inotify α} (hs : Notified path old s)
    (hcaught : s.caughtUp = true) : s.texts = pieces nl s.written := by
  cases hs with
  | missing _ _ _ _ _ hwritten _ _ _ htexts =>
    rw [htexts, hwritten]
    rfl
  | created _ _ _ _ _ _ _ _ _ _ htexts hnone =>
    rw [htexts, hnone hcaught]
    rfl
  | @opened f _ hcuts hoffset _ hcontent _ _ hend =>
    rw [Observed.texts, (bytesRead_of_cuts hcuts).1, bytesRead, hend hcaught, slice_length,
      hcontent, hoffset, List.drop_left]

/-! ### Without inotify -/

/-- The invariant: no file is open yet, or it is open with its identity recorded. -/
inductive Polled (path old : Bytes) (s : Observed Polling α) : Prop where
  | unopened (hpath : s.call.self.path = path) (hfp : s.call.self.fp = none) (hold : old = [])
      (hcontent : ∀ i, s.occupant = some i → s.call.world.files.content i = s.written)
      (hmissing : s.occupant = none → s.written = []) (hline : s.call.self.line = [])
      (htexts : s.texts = []) (hcaught : s.caughtUp = true → s.written = [])
  | opened {f : File Handle} (hpath : s.call.self.path = path)
      (hidentity : s.call.self.own.dev = 0 ∧ s.call.self.own.ino = f.handle.inode)
      (hcuts : Cuts f s.call) (hoffset : f.offset = 0) (hocc : s.occupant = some f.handle.inode)
      (hcontent : contentOf f.handle s.call = old ++ s.written)
      (hidle : s.worked = false → s.texts = [] ∧ (s.caughtUp = true → s.written = []))
      (hcaught : s.caughtUp = true → s.worked = true →
        offsetOf s.call = (contentOf f.handle s.call).length)

/-- **`work`** of the watcher that polls catches up. -/
theorem polled_work (now : Int) {old : Bytes} (hquiet : Quiet callback)
    {s : Observed Polling α} (hs : Polled path old s) :
    Ends (fun _ c' => Polled path old { s with call := c', caughtUp := true, worked := true })
      (fun _ _ => False) (PollingWatcher.work (pollKernel path now) (tap callback) s.call) := by
  cases hs with
  | unopened hpath hfp hold hcontent hmissing hline htexts hcaught =>
    refine poll_work_ends hpath (fun _ => ?_) fun hopen => by rw [hfp] at hopen; cases hopen
    unfold readOpened
    cases hocc : s.occupant with
    | none =>
      have hsame : pollOpened (tick now s.call) = tick now s.call := by
        unfold pollOpened
        rw [show (tick now s.call).self.fp = none from hfp,
          show (tick now s.call).world.files.occupant = none from hocc]
      rw [hsame, if_neg (by simp [tick, hfp])]
      exact .unopened hpath hfp hold hcontent hmissing hline htexts fun _ => hmissing hocc
    | some i =>
      have hopened : pollOpened (tick now s.call) =
          ⟨{ s.call.self with
              fp := some ⟨s.call.world.files.handle i, 0⟩, own := ⟨now + 1, 0, i⟩ },
            s.call.client, s.call.world⟩ := by
        unfold pollOpened
        rw [show (tick now s.call).self.fp = none from hfp,
          show (tick now s.call).world.files.occupant = some i from hocc]
        rfl
      have hcuts : Cuts ⟨s.call.world.files.handle i, 0⟩ (pollOpened (tick now s.call)) := by
        rw [hopened]
        exact cuts_of_opened ⟨rfl, Nat.zero_le _, hline, htexts⟩
      rw [if_pos (isSome_of_cuts hcuts)]
      refine (readLines_catchesUp hquiet hcuts).mono (fun _ c' hread => ?_) fun _ _ => id
      obtain ⟨⟨hcuts', hend⟩, hsame⟩ := hread
      rw [hopened] at hsame
      have hread : contentOf (s.call.world.files.handle i) c' = old ++ s.written := by
        rw [hsame.contentOf_eq, hold]
        exact hcontent i hocc
      exact .opened (hsame.path.trans hpath) (by rw [hsame.own]; exact ⟨rfl, rfl⟩) hcuts' rfl
        (hsame.occupant_eq.trans hocc) hread (fun hidle => by cases hidle) fun _ _ => hend
  | @opened f hpath hidentity hcuts hoffset hocc hcontent hidle hcaught =>
    -- The file at the path is the open one, by its device and inode.
    have hsame : replaced s.call = false := by
      unfold replaced
      rw [show s.call.world.files.occupant = _ from hocc]
      simp [hidentity]
    refine poll_work_ends hpath (fun _ => ?_) fun _ hother => by rw [hsame] at hother; cases hother
    have hopen := isSome_of_cuts hcuts
    have hkept : pollOpened (tick now s.call) = tick now s.call := by
      obtain ⟨g, hg⟩ := Option.isSome_iff_exists.mp hopen
      unfold pollOpened
      rw [show (tick now s.call).self.fp = some g from hg]
    unfold readOpened
    rw [hkept, if_pos (show (tick now s.call).self.fp.isSome from hopen)]
    have hcuts' : Cuts f (tick now s.call) := hcuts
    refine (readLines_catchesUp hquiet hcuts').mono (fun _ c' hread => ?_) fun _ _ => id
    obtain ⟨⟨hcuts₁, hend⟩, hread⟩ := hread
    exact .opened (hread.path.trans hpath) (by rw [hread.own]; exact hidentity) hcuts₁ hoffset
      (hread.occupant_eq.trans hocc) ((hread.contentOf_eq _).trans hcontent)
      (fun hidle' => by cases hidle') fun _ _ => hend

/-- **One step** of the watcher that polls. -/
theorem polled_step {old : Bytes} (hquiet : Quiet callback) {s s' : Observed Polling α}
    {g : Growth} (hs : Polled path old s) (h : Grows path (PollingWorks path callback) s g s') :
    Polled path old s' := by
  cases h with
  | worked h =>
    obtain ⟨now, hrun⟩ := h
    exact (polled_work now hquiet hs).ok hrun
  | created hnone hname =>
    cases hs with
    | unopened hpath hfp hold hcontent hmissing hline htexts hcaught =>
      refine .unopened hpath hfp hold ?_ nofun hline htexts hcaught
      rintro i ⟨⟩
      rw [hmissing hnone]
      exact Function.update_self ..
    | opened _ _ _ _ hocc => cases hocc.symm.trans hnone
  | appended chunk hthere =>
    cases hs with
    | unopened hpath hfp hold hcontent hmissing hline htexts hcaught =>
      refine .unopened hpath hfp hold ?_ (fun hnone => by cases hthere.symm.trans hnone) hline
        htexts nofun
      intro i hi
      cases hthere.symm.trans hi
      show Function.update _ _ _ _ = _
      rw [Function.update_self, hcontent _ hthere]
    | @opened f hpath hidentity hcuts hoffset hocc hcontent hidle hcaught =>
      cases hocc.symm.trans hthere
      refine .opened hpath hidentity
        (cuts_of_appended hcuts _ chunk) hoffset hocc ?_
        (fun hidle' => ⟨(hidle hidle').1, nofun⟩) nofun
      show Function.update _ _ _ _ = _
      rw [Function.update_self, ← List.append_assoc, ← hcontent]
      rfl

/-- **The constructor.** -/
theorem polled_of_starts {fs : Filesystem} {s : Observed Polling α} (h : PollingStarts path fs s) :
    Polled path (heldIn fs) s := by
  obtain ⟨now, hmade, htexts, hwritten, -, hworked⟩ := h
  rw [poll_construct_eq] at hmade
  obtain ⟨hself, hworld⟩ := EStateM.Result.ok.inj hmade
  cases hocc : fs.files.occupant with
  | none =>
    have hnone : pollOpened (unpolled path now fs) = unpolled path now fs := by
      simp [pollOpened, unpolled, hocc]
    rw [hnone] at hself hworld
    refine .unopened (by rw [← hself]; rfl) (by rw [← hself]; rfl) (by rw [heldIn, hocc]) ?_
      (fun _ => hwritten) (by rw [← hself]; rfl) htexts fun _ => hwritten
    intro i hi
    rw [Observed.occupant, ← hworld] at hi
    cases hocc.symm.trans hi
  | some i =>
    have hself : s.call.self = ⟨path, some ⟨fs.files.handle i, 0⟩, [], ⟨now, 0, i⟩⟩ := by
      simp [← hself, pollOpened, unpolled, hocc]
    have hworld : s.call.world = fs := by
      simp [← hworld, pollOpened, unpolled, hocc]
    have hopened : Opened ⟨fs.files.handle i, 0⟩ s.call :=
      ⟨by rw [hself], Nat.zero_le _, by rw [hself], htexts⟩
    refine .opened (by rw [hself]) (by rw [hself]; exact ⟨rfl, rfl⟩) (cuts_of_opened hopened) rfl ?_
      ?_ (fun _ => ⟨htexts, fun _ => hwritten⟩) fun _ hworked' => ?_
    · rw [Observed.occupant, hworld]
      exact hocc
    · rw [contentOf, hworld, heldIn, hocc, hwritten, List.append_nil]
      rfl
    · cases hworked.symm.trans hworked'

/-- What has been passed when the watcher has caught up: all lines of the file, once it has worked
at all. -/
theorem texts_of_polled {old : Bytes} {s : Observed Polling α} (hs : Polled path old s)
    (hcaught : s.caughtUp = true) :
    s.worked = true ∧ s.texts = pieces nl (old ++ s.written) ∨
      s.worked = false ∧ s.texts = [] ∧ s.written = [] := by
  cases hs with
  | unopened _ _ hold _ _ _ htexts hnone =>
    cases hworked : s.worked with
    | true => exact .inl ⟨rfl, by rw [htexts, hold, hnone hcaught]; rfl⟩
    | false => exact .inr ⟨rfl, htexts, hnone hcaught⟩
  | @opened f _ _ hcuts hoffset _ hcontent hidle hend =>
    cases hworked : s.worked with
    | true =>
      refine .inl ⟨rfl, ?_⟩
      rw [Observed.texts, (bytesRead_of_cuts hcuts).1, bytesRead, hend hcaught hworked,
        slice_length, hoffset, List.drop_zero, hcontent]
    | false => exact .inr ⟨rfl, (hidle hworked).1, (hidle hworked).2 hcaught⟩

/-! ### Agreement -/

/-- **The two watchers agree unless the file held a line, or the start of one, at first.** -/
theorem watchers_agree_iff (hquiet : Quiet callback) {fs : Filesystem}
    (hfs : Monitored.Unwatched fs) (hdir : cstr path ≠ cstr (getDirName path))
    {s : Observed Inotify α} {s' : Observed Polling α}
    (h : Reachable (InotifyStarts path fs) (Grows path (InotifyWorks path callback)) s)
    (h' : Reachable (PollingStarts path fs) (Grows path (PollingWorks path callback)) s')
    (hwritten : s'.written = s.written) (hcaught : s.caughtUp = true)
    (hcaught' : s'.caughtUp = true) :
    -- no `work` throws
    (∃ c, InotifyWorks path callback s.call c) ∧ (∃ c, PollingWorks path callback s'.call c) ∧
    ((s.texts = s'.texts ∧ s.texts = pieces nl s.written) ↔
      s'.worked = false ∨ heldIn fs = [] ∨ nl ∉ heldIn fs ++ s.written) := by
  have hs : Notified path (heldIn fs) s :=
    h.invariant (fun _ => notified_of_starts hfs hdir) fun _ _ _ => notified_step hquiet
  have hs' : Polled path (heldIn fs) s' :=
    h'.invariant (fun _ => polled_of_starts) fun _ _ _ => polled_step hquiet
  refine ⟨?_, ?_, ?_⟩
  · obtain ⟨_, c, hrun, -⟩ := (notified_work hquiet Nat.one_pos hs).exists_ok
    exact ⟨c, 1, Nat.one_pos, hrun⟩
  · obtain ⟨_, c, hrun, -⟩ := (polled_work 0 hquiet hs').exists_ok
    exact ⟨c, 0, hrun⟩
  · have htexts := texts_of_notified hs hcaught
    rcases texts_of_polled hs' hcaught' with ⟨hworked, htexts'⟩ | ⟨hworked, htexts', hnone⟩
    · rw [htexts, htexts', hwritten, hworked, ← pieces_append_eq_iff]
      constructor
      · rintro ⟨h, -⟩
        exact .inr h.symm
      · rintro (h | h)
        · cases h
        · exact ⟨h.symm, rfl⟩
    -- A poll that never worked has passed nothing, and nothing was written.
    · refine iff_of_true ⟨?_, htexts⟩ (.inl hworked)
      rw [htexts, htexts', ← hwritten, hnone]
      rfl

/-! ### A file with a line -/

/-- A directory with a log that holds one line. -/
def oneLine : Filesystem :=
  { oneFile with files.content := fun _ => lit "a\n" }

/-- No file of `oneLine` is watched. -/
theorem unwatched_oneLine : Monitored.Unwatched oneLine := by
  refine ⟨?_, nofun, rfl, rfl, rfl, rfl⟩
  rintro i ⟨⟩
  exact ⟨Nat.one_pos, List.not_mem_nil⟩

/-- A client that does nothing. -/
def ignore : Callback Handle Unit := fun _ _ _ => .ok () ()

/-- A client that ignores its lines never throws. -/
theorem quiet_ignore : Quiet ignore := fun _ _ _ => ⟨(), rfl⟩

/-- The two new watchers of a file system. -/
def notifiedIn (fs : Filesystem) : Observed Inotify Unit :=
  ⟨⟨{ (reopen (unopened (lit "/log") fs)).self with
      fp := (reopen (unopened (lit "/log") fs)).self.fp.map (atEnd fs) }, ((), []),
    (reopen (unopened (lit "/log") fs)).world⟩, [], true, false⟩

def polledIn (fs : Filesystem) : Observed Polling Unit :=
  ⟨⟨(pollOpened (unpolled (lit "/log") 7 fs)).self, ((), []), fs⟩, [], true, false⟩

/-- A watcher that uses inotify can start there. -/
theorem inotifyStarts_oneLine : InotifyStarts (lit "/log") oneLine (notifiedIn oneLine) :=
  ⟨rfl, rfl, rfl, rfl, rfl⟩

/-- So can one that polls. -/
theorem pollingStarts_oneLine : PollingStarts (lit "/log") oneLine (polledIn oneLine) :=
  ⟨7, rfl, rfl, rfl, rfl, rfl⟩

/-- A watcher that uses inotify can start with an empty file. -/
theorem inotifyStarts_oneFile : InotifyStarts (lit "/log") oneFile (notifiedIn oneFile) :=
  ⟨rfl, rfl, rfl, rfl, rfl⟩

/-- So can one that polls. -/
theorem pollingStarts_oneFile : PollingStarts (lit "/log") oneFile (polledIn oneFile) :=
  ⟨7, rfl, rfl, rfl, rfl, rfl⟩

/-- A line is appended to an empty log, and both watchers work. -/
theorem watchers_agree_iff_oneFile :
    ∃ (s : Observed Inotify Unit) (s' : Observed Polling Unit), s.written = lit "b\n" ∧
      s'.worked = true ∧ s.texts = s'.texts ∧ s.texts = pieces nl s.written := by
  have hnotified : Reachable (InotifyStarts (lit "/log") oneFile)
      (Grows (lit "/log") (InotifyWorks (lit "/log") ignore)) _ :=
    .next _ (.start inotifyStarts_oneFile) (.appended (lit "b\n") rfl)
  have hpolled : Reachable (PollingStarts (lit "/log") oneFile)
      (Grows (lit "/log") (PollingWorks (lit "/log") ignore)) _ :=
    .next _ (.start pollingStarts_oneFile) (.appended (lit "b\n") rfl)
  have hnotified' := Reachable.next .worked hnotified (.worked ⟨1, Nat.one_pos, rfl⟩)
  have hpolled' := Reachable.next .worked hpolled (.worked ⟨8, rfl⟩)
  have hagree := (watchers_agree_iff quiet_ignore unwatched_oneFile (by decide) hnotified'
    hpolled' rfl rfl rfl).2.2.mpr (.inr (.inl rfl))
  exact ⟨_, _, rfl, rfl, hagree⟩

/-- A second line is appended, and both watchers work. -/
theorem not_watchers_agree :
    Monitored.Unwatched oneLine ∧ ∃ s s', Reachable (InotifyStarts (lit "/log") oneLine)
        (Grows (lit "/log") (InotifyWorks (lit "/log") ignore)) s ∧
      Reachable (PollingStarts (lit "/log") oneLine)
        (Grows (lit "/log") (PollingWorks (lit "/log") ignore)) s' ∧
      s.written = lit "b\n" ∧ s'.written = lit "b\n" ∧ s.caughtUp = true ∧ s'.caughtUp = true ∧
      s.texts = [lit "b\n"] ∧ s'.texts = [lit "a\n", lit "b\n"] := by
  have hnotified : Reachable (InotifyStarts (lit "/log") oneLine)
      (Grows (lit "/log") (InotifyWorks (lit "/log") ignore)) _ :=
    .next _ (.start inotifyStarts_oneLine) (.appended (lit "b\n") rfl)
  have hpolled : Reachable (PollingStarts (lit "/log") oneLine)
      (Grows (lit "/log") (PollingWorks (lit "/log") ignore)) _ :=
    .next _ (.start pollingStarts_oneLine) (.appended (lit "b\n") rfl)
  exact ⟨unwatched_oneLine, _, _, .next .worked hnotified (.worked ⟨1, Nat.one_pos, rfl⟩),
    .next .worked hpolled (.worked ⟨8, rfl⟩), by decide⟩

end Blockad.Proofs
