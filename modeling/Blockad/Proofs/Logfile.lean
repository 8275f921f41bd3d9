import Blockad.Proofs.Configurations
import Blockad.Proofs.LineSplitting
import Blockad.Proofs.Verdicts
import Blockad.Proofs.Wakeups
import Mathlib.Logic.Relation

/-!
# `Blockad.Proofs.Logfile`: the daemon and its logfile

What the daemon blocks comes from the lines that its watchers pass to `processLine`
(`Blockad.Proofs.Evidence`, `Blockad.Proofs.Verdicts`). What a watcher passes comes from its file
(`Blockad.Proofs.Provenance`, `Blockad.Proofs.Wakeups`). Here the two meet: the daemon runs over the
file system of `Blockad.Model.Filesystem`, with one file to watch.

* `work_whileOpen`: `processLine` is only called with an open file.
* `logged_work`: the watcher of the daemon does what it does with the client that keeps its calls,
  as long as `BlockingWatcher::processLine` does not throw.
* `tailsAt_of_run`: so every run of the daemon has a run of the monitored watcher inside it, and the
  lines of the one are the texts of the other.
* `blocked_on_log`: each call of `block` comes from texts that are in the files, line by line.
-/

set_option autoImplicit false

namespace Blockad.Proofs

open Bytes Prog Runs Watcher InotifyWatcher Monitored

/-! ### The open file -/

section
variable {H ω α W : Type} {callback : Callback H α}

/-- The callback, where a file is open. -/
def whileOpen (callback : Callback H α) : Callback H α := fun fp line =>
  if fp.isSome then callback fp line else throw .undefined

/-- The client is asked with an open file. -/
theorem processLine_whileOpen {s : Call H ω α W} (h : s.self.fp.isSome) :
    Watcher.processLine (whileOpen callback) s = Watcher.processLine callback s := by
  simp only [Watcher.processLine, whileOpen, h, if_true]

/-- The file stays open between the lines. -/
theorem readBytes_whileOpen (close : Prog H ω α W Unit) (error : Option Errno) (bytes : Bytes)
    {s : Call H ω α W} (h : s.self.fp.isSome) :
    readBytes (whileOpen callback) close error bytes s =
      readBytes callback close error bytes s := by
  induction bytes generalizing s with
  | nil => rfl
  | cons c rest ih =>
    have htaken : (takeByte c s.self).fp.isSome := by simpa [takeByte] using h
    by_cases hc : c = nl
    · subst hc
      show (Watcher.processLine (whileOpen callback) >>= fun _ => assign clearLine >>= fun _ =>
          readBytes (whileOpen callback) close error rest) { s with self := takeByte nl s.self }
        = (Watcher.processLine callback >>= fun _ => assign clearLine >>= fun _ =>
          readBytes callback close error rest) { s with self := takeByte nl s.self }
      rw [bind_congr_at (processLine_whileOpen htaken)]
      cases hline : callback (takeByte nl s.self).fp (takeByte nl s.self).line s.client with
      | ok u a =>
        have hcalled : Watcher.processLine callback { s with self := takeByte nl s.self }
            = .ok () { s with self := takeByte nl s.self, client := a } :=
          processLine_of_ok hline
        rw [bind_of_ok hcalled, bind_of_ok hcalled]
        exact ih htaken
      | error e a =>
        have hcalled : Watcher.processLine callback { s with self := takeByte nl s.self }
            = .error e { s with self := takeByte nl s.self, client := a } :=
          processLine_of_error hline
        rw [bind_of_error hcalled, bind_of_error hcalled]
    · rw [readBytes_of_ne hc, readBytes_of_ne hc]
      exact ih htaken

/-- Without an open file, nothing is read. -/
theorem readLines_whileOpen (os : Syscalls H W) (close : Prog H ω α W Unit) :
    readLines os (whileOpen callback) close = readLines os callback close := by
  funext s
  obtain ⟨⟨path, fp, line, own⟩, client, world⟩ := s
  cases fp with
  | none => rfl
  | some f =>
    show readBytes _ close _ _ _ = readBytes _ close _ _ _
    exact readBytes_whileOpen close _ _ rfl

end

section
variable {H α W : Type} (os : Syscalls H W) (callback : Callback H α)

/-- The line that was begun is passed before the file is closed. -/
theorem flushLine_whileOpen {s : Call H Inotify α W} (h : s.self.fp.isSome) :
    flushLine (whileOpen callback) s = flushLine callback s := by
  show (if !s.self.line.isEmpty then
      Watcher.processLine (whileOpen callback) >>= fun _ => assign clearLine else pure ()) s =
    (if !s.self.line.isEmpty then
      Watcher.processLine callback >>= fun _ => assign clearLine else pure ()) s
  split
  · exact bind_congr_at (processLine_whileOpen h) _
  · rfl

/-- Without an open file, nothing is closed. -/
theorem closeFile_whileOpen : closeFile os (whileOpen callback) = closeFile os callback := by
  funext s
  obtain ⟨⟨path, fp, line, own⟩, client, world⟩ := s
  cases fp with
  | none => rfl
  | some f =>
    let call : Call H Inotify α W := ⟨⟨path, some f, line, own⟩, client, world⟩
    have hflush : flushLine (whileOpen callback) call = flushLine callback call :=
      flushLine_whileOpen callback rfl
    exact bind_congr_at hflush fun _ => do
      removeWatch os
      sysVoid (os.fclose f.handle)
      assign fun w => { w with fp := none }

/-- **`processLine` is only called with an open file.** -/
theorem work_whileOpen : work os (whileOpen callback) = work os callback := by
  have hread (close : Prog H Inotify α W Unit) :
      readLinesWith (pure ()) os (whileOpen callback) close =
        readLinesWith (pure ()) os callback close := readLines_whileOpen os close
  unfold work workWith handleEventWith fileEventWith dirEventWith
  simp only [closeFile_whileOpen, hread]

end

/-! ### The texts -/

section
variable [Libc]

/-- The texts of the deliveries are the recorded lines. -/
def SameTexts (log : List Delivery) (recorded : Recorded) : Prop :=
  log.map Delivery.text = recorded.2.map Prod.snd

/-- The client of the daemon gets what a client gets that keeps its calls, while it does not
throw. -/
theorem callbacks_record (cf : ConfFile) :
    Callbacks SameTexts none record (whileOpen fun _ => recordLine cf) := by
  refine ⟨fun fp line log recorded hsame => ?_, nofun⟩
  obtain ⟨store, lines⟩ := recorded
  cases fp with
  | none => exact endsAlike_error.mpr nofun
  | some file =>
    show EndsAlike SameTexts none (.ok () (log ++ [⟨file, line⟩]))
      (recordLine cf line (store, lines))
    unfold recordLine
    dsimp only
    cases BlockingWatcher.processLine cf line store with
    | ok u store' =>
      refine ⟨rfl, ?_⟩
      show (log ++ [(⟨file, line⟩ : Delivery)]).map Delivery.text
        = (lines ++ [(cf, line)]).map Prod.snd
      rw [List.map_append, List.map_append, hsame]
      rfl
    | error e store' => exact endsAlike_error.mpr nofun

/-- **The watcher does not depend on the client.** -/
theorem logged_work {os : Syscalls Handle Filesystem} {cf : ConfFile}
    {watcher : InotifyWatcher Handle} {log : List Delivery} {recorded : Recorded}
    {world : Filesystem} {c : Call Handle Inotify Recorded Filesystem}
    (hsame : SameTexts log recorded)
    (hrun : work os (fun _ => recordLine cf) ⟨watcher, recorded, world⟩ = .ok () c) :
    ∃ log', work os record ⟨watcher, log, world⟩ = .ok () ⟨c.self, log', c.world⟩ ∧
      SameTexts log' c.client := by
  rw [← work_whileOpen] at hrun
  have hpass := relates_work (callbacks_record cf) os ⟨watcher, log, world⟩
    ⟨watcher, recorded, world⟩ ⟨rfl, rfl, hsame⟩
  rw [hrun] at hpass
  obtain ⟨⟨self, log', world'⟩, hwork, rfl, rfl, hsame'⟩ := hpass.of_ok
  exact ⟨log', hwork, hsame'⟩

end

/-! ### The steps of `work` -/

/-- The changes of a run are of a kind. -/
def OnlyChanges (allowed : Change → Prop) (_ : Monitored) : Action → Prop
  | .changed c => allowed c
  | .read _ => True
  | .handled => True

section
variable {path : Bytes} {first : Files} {allowed : Change → Prop}

/-- The runs of the monitored watcher from given files on, with changes of a kind only. -/
abbrev Watched (path : Bytes) (first : Files) (allowed : Change → Prop) : Monitored → Prop :=
  Reachable (fun m => Constructed path m ∧ m.call.world.files = first)
    (Guarded (Transition path) (OnlyChanges allowed))

/-- Events that are handled one after the other are steps of the watcher. -/
theorem works_forM {k : Nat} {events : List InotifyEvent} {call call' : Site}
    (hrun : events.forM (handleEvent (kernel path k) record) call = .ok () call') :
    Relation.ReflTransGen (Works path) ⟨call, events⟩ ⟨call', []⟩ := by
  induction events generalizing call with
  | nil =>
    cases hrun
    exact .refl
  | cons event events ih =>
    obtain ⟨u, call₁, hfirst, hrest⟩ := bind_eq_ok_iff.mp hrun
    exact .head (.inr (.handled rfl hfirst)) (ih hrest)

/-- **A `work` is a run of the steps**, however many events it reads. -/
theorem works_work {k : Nat} {call call' : Site}
    (hrun : work (kernel path k) record call = .ok () call') :
    Relation.ReflTransGen (Works path) ⟨call, []⟩ ⟨call', []⟩ ∧
      (0 < min k call.world.inotify.queue.length →
        Relation.TransGen (Works path) ⟨call, []⟩ ⟨call', []⟩) := by
  obtain ⟨events, call₁, hread, hhandle⟩ := bind_eq_ok_iff.mp hrun
  cases hread
  have hworks := works_forM hhandle
  have htake := List.take_eq_take_min (l := call.world.inotify.queue) (i := k)
  have hdrop := List.drop_eq_drop_min (l := call.world.inotify.queue) (i := k)
  rw [htake, hdrop] at hworks
  clear hhandle hrun
  generalize hn : min k call.world.inotify.queue.length = n at hworks
  cases n with
  | zero => exact ⟨hworks, nofun⟩
  | succ n =>
    have hle : n + 1 ≤ call.world.inotify.queue.length := hn ▸ Nat.min_le_right _ _
    have hread : Works path ⟨call, []⟩ _ := .inl ⟨n + 1, .read rfl n.succ_pos hle⟩
    exact ⟨.head hread hworks, fun _ => .head' hread hworks⟩

/-- The steps of the watcher are steps of the run. -/
theorem watched_works {m m' : Monitored} (h : Watched path first allowed m)
    (hworks : Relation.ReflTransGen (Works path) m m') : Watched path first allowed m' := by
  induction hworks with
  | refl => exact h
  | tail _ hstep ih =>
    rcases hstep with ⟨k, hstep⟩ | hstep
    · exact .next (.read k) ih ⟨trivial, hstep⟩
    · exact .next .handled ih ⟨trivial, hstep⟩

end

/-! ### The watchers of one file -/

section
variable {path : Bytes} {k : Nat}

/-- The descriptor of a new watcher is nonblocking anyway. -/
theorem createWatcher_kernel {watcher : InotifyWatcher Handle} {world world' : Filesystem}
    (h : createWatcher (kernel path k) (inotifyClass (kernel path k)) path world
      = .ok watcher world') : construct (kernel path k) path world = .ok watcher world' := by
  obtain ⟨made, world₁, hnew, hrest⟩ := bind_eq_ok_iff.mp h
  dsimp only at hrest
  split at hrest
  · cases hrest
    exact hnew
  · cases hrest
    exact hnew

/-- The constructor changes no file. -/
theorem files_of_construct {watcher : InotifyWatcher Handle} {world world' : Filesystem}
    (hdir : cstr path ≠ cstr (getDirName path))
    (h : construct (kernel path k) path world = .ok watcher world') :
    world'.files = world.files := by
  unfold construct at h
  dsimp only at h
  rw [start_eq hdir] at h
  cases h
  show (reopen (unopened path world)).world.files = world.files
  rw [files_reopen]
  rfl

/-- Where there are no watchers yet, one is constructed. -/
theorem updateWatchers_new {world world' : Filesystem} {watchers : List (InotifyWatcher Handle)}
    (h : updateWatchers (kernel path k) (inotifyClass (kernel path k)) none [path] [] world
      = .ok watchers world') :
    ∃ watcher, construct (kernel path k) path world = .ok watcher world' ∧
      watchers = [watcher] := by
  obtain ⟨⟨old, new⟩, world₁, hloop, hrest⟩ := bind_eq_ok_iff.mp h
  have hturn : updateLoop (kernel path k) (inotifyClass (kernel path k)) none 0 [] [] [path] =
      createWatcher (kernel path k) (inotifyClass (kernel path k)) path >>= fun watcher =>
        updateLoop (kernel path k) (inotifyClass (kernel path k)) none 1 [] [watcher] [] :=
    updateLoop_cons_new _ _ rfl rfl
  change updateLoop (kernel path k) (inotifyClass (kernel path k)) none 0 [] [] [path] world = _
    at hloop
  rw [hturn] at hloop
  obtain ⟨watcher, world₂, hnew, hdone⟩ := bind_eq_ok_iff.mp hloop
  cases hdone
  cases hrest
  exact ⟨watcher, createWatcher_kernel hnew, rfl⟩

/-- A reload keeps the watcher, and makes no system call. -/
theorem updateWatchers_same (os : Syscalls Handle Filesystem) (watcher : InotifyWatcher Handle)
    (world : Filesystem) :
    updateWatchers os (inotifyClass os) (some [path]) [path] [watcher] world
      = .ok [watcher] world := by
  have hfound : findReusable (some [path]) (leftOver [watcher] 0) 0 path = .ok (some 0) := by
    have hold : [path][0]? = some path := rfl
    have hlen : [watcher].length = [path].length := rfl
    rw [findReusable_eq hold (Nat.le_refl 0) hlen, if_pos rfl]
  have hturn : updateLoop os (inotifyClass os) (some [path]) 0 (leftOver [watcher] 0) [] [path] =
      updateLoop os (inotifyClass os) (some [path]) 1 (leftOver [watcher] 1) [watcher] [] :=
    updateLoop_cons_reuse _ _ hfound rfl
  have hloop : updateLoop os (inotifyClass os) (some [path]) 0 [some watcher] [] [path] world
      = .ok ([none], [watcher]) world := congrFun hturn world
  exact bind_of_ok hloop

end

/-! ### The daemon -/

/-- What holds between the watcher of the daemon, the texts that it has delivered and the world. -/
structure Tails (path : Bytes) (first : Files) (allowed : Change → Prop)
    (watchers : List (InotifyWatcher Handle))
    (lines : List Bytes) (world : Filesystem) (m : Monitored) : Prop where
  watched : Watched path first allowed m
  batch : m.batch = []
  watchers_eq : watchers = [m.call.self]
  world_eq : world = m.call.world
  texts : m.call.client.map Delivery.text = lines

section
variable [Libc]

/-- One watcher is monitored. -/
abbrev Tailing (path : Bytes) (first : Files) (allowed : Change → Prop)
    (r : Recorder Handle Filesystem) : Prop :=
  ∃ m, Tails path first allowed r.daemon.watchers (r.lines.map Prod.snd) r.daemon.world m

section
variable {path : Bytes} {first : Files} {k : Nat} {allowed : Change → Prop}
  {r r' : Recorder Handle Filesystem}

/-- The daemon makes its one watcher. -/
theorem tailing_created (hdir : cstr path ≠ cstr (getDirName path))
    (hfs : Unwatched r.daemon.world) (hfirst : r.daemon.world.files = first)
    (hfiles : r.daemon.config.files = [path]) (hwatchers : r.daemon.watchers = [])
    (hlines : r.lines = [])
    (hrun : Recorder.onDaemon (Daemon.create (kernel path k)) r = .ok () r') :
    Tailing path first allowed r' := by
  obtain ⟨d, hcreate, rfl⟩ := onDaemon_ok hrun
  unfold Daemon.create at hcreate
  rw [hfiles, hwatchers] at hcreate
  cases hupdate : updateWatchers (kernel path k) (inotifyClass (kernel path k)) none [path] []
      r.daemon.world with
  | error e world =>
    rw [hupdate] at hcreate
    cases hcreate
  | ok watchers world =>
    rw [hupdate] at hcreate
    cases hcreate
    obtain ⟨watcher, hnew, rfl⟩ := updateWatchers_new hupdate
    refine ⟨⟨⟨watcher, [], world⟩, []⟩, .start ⟨?_, ?_⟩, rfl, rfl, rfl, ?_⟩
    · exact ⟨r.daemon.world, watcher, world, hfs, hdir, hnew, rfl⟩
    · exact (files_of_construct hdir hnew).trans hfirst
    · rw [hlines]
      rfl

/-- A change of the world is a step of the watcher. -/
theorem Tailing.changed (h : Tailing path first allowed r) {c : Change} (hallowed : allowed c)
    (hallows : r.daemon.world.files.Allows (cstr (getBaseName path)) c) :
    Tailing path first allowed { r with
      daemon.world := r.daemon.world.change (cstr (getBaseName path)) c } := by
  obtain ⟨m, hwatched, hbatch, hwatchers, hworld, htexts⟩ := h
  rw [hworld] at hallows ⊢
  exact ⟨_, .next (.changed c) hwatched ⟨hallowed, .changed hallows⟩, hbatch, hwatchers, rfl,
    htexts⟩

/-- **One pass.** -/
theorem Tails.checked {m : Monitored}
    (h : Tails path first allowed r.daemon.watchers (r.lines.map Prod.snd) r.daemon.world m)
    {ready : Nat → Bool} (hrun : Recorder.check (kernel path k) ready r = .ok () r') :
    ∃ call,
      Tails path first allowed r'.daemon.watchers (r'.lines.map Prod.snd) r'.daemon.world
        ⟨call, []⟩ ∧
      if 0 ≤ InotifyWatcher.pollfd m.call.self && ready 0 then
        work (kernel path k) record m.call = .ok () call
      else call = m.call := by
  obtain ⟨hwatched, hbatch, hwatchers, hworld, htexts⟩ := h
  obtain ⟨⟨self, log, world⟩, batch⟩ := m
  dsimp only at hbatch hwatchers hworld htexts ⊢
  subst hbatch
  unfold Recorder.check at hrun
  rw [hwatchers, hworld] at hrun
  cases hpass : checkWatchers (kernel path k) (fun _ => recordLine r.daemon.config) ready 0 [self]
      ((r.daemon.store, r.lines), world) with
  | error e s =>
    rw [hpass] at hrun
    cases hrun
  | ok watchers s =>
    rw [hpass] at hrun
    obtain ⟨⟨store, lines⟩, world'⟩ := s
    cases hrun
    obtain ⟨watcher, ⟨⟨store', lines'⟩, world''⟩, hone, hrest⟩ := bind_eq_ok_iff.mp hpass
    cases hrest
    unfold checkWatcher at hone
    dsimp only at hone
    split at hone
    · rename_i hready
      cases hwork : work (kernel path k) (fun _ => recordLine r.daemon.config)
          ⟨self, (r.daemon.store, r.lines), world⟩ with
      | error e c =>
        rw [hwork] at hone
        cases hone
      | ok u c =>
        rw [hwork] at hone
        obtain ⟨callSelf, ⟨callStore, callLines⟩, callWorld⟩ := c
        cases hone
        obtain ⟨log', hrecord, hsame⟩ :=
          logged_work (show SameTexts log (r.daemon.store, r.lines) from htexts) hwork
        refine ⟨⟨callSelf, log', callWorld⟩, ⟨?_, rfl, rfl, rfl, hsame⟩, ?_⟩
        · exact watched_works hwatched (works_work hrecord).1
        · rw [if_pos hready]
          exact hrecord
    · rename_i hready
      cases hone
      refine ⟨_, ⟨hwatched, rfl, rfl, rfl, htexts⟩, ?_⟩
      rw [if_neg hready]

/-- **A pass** is some steps of the watcher, and the client gets its lines. -/
theorem Tailing.checked (h : Tailing path first allowed r) {ready : Nat → Bool}
    (hrun : Recorder.check (kernel path k) ready r = .ok () r') :
    Tailing path first allowed r' := by
  obtain ⟨m, hm⟩ := h
  obtain ⟨call, hcall, -⟩ := hm.checked hrun
  exact ⟨_, hcall⟩

/-- A reload keeps the watcher. -/
theorem reload_kernel {conffile : Bytes} {file : FileContent} {d d' : Daemon Handle Filesystem}
    {watcher : InotifyWatcher Handle} (hfiles : d.config.files = [path])
    (hfiles' : d'.config.files = [path]) (hwatchers : d.watchers = [watcher])
    (hrun : d.reload (kernel path k) conffile file = .ok () d') :
    d'.watchers = [watcher] ∧ d'.world = d.world := by
  unfold Daemon.reload at hrun
  cases hparse : ConfFile.construct conffile file with
  | error e =>
    rw [hparse] at hrun
    dsimp only at hrun
    split at hrun
    · cases hrun
      exact ⟨hwatchers, rfl⟩
    · cases hrun
  | ok config =>
    rw [hparse] at hrun
    dsimp only at hrun
    rw [hfiles, hwatchers] at hrun
    cases hupdate : updateWatchers (kernel path k) (inotifyClass (kernel path k)) (some [path])
        config.files [watcher] d.world with
    | error e world =>
      rw [hupdate] at hrun
      cases hrun
    | ok watchers world =>
      rw [hupdate] at hrun
      cases hrun
      have hsame : config.files = [path] := hfiles'
      rw [hsame, updateWatchers_same] at hupdate
      cases hupdate
      exact ⟨rfl, rfl⟩

/-- A reload keeps the watcher. -/
theorem Tailing.reloaded (h : Tailing path first allowed r) {conffile : Bytes} {file : FileContent}
    (hfiles : r.daemon.config.files = [path]) (hfiles' : r'.daemon.config.files = [path])
    (hrun : Recorder.onDaemon (Daemon.reload (kernel path k) conffile file) r = .ok () r') :
    Tailing path first allowed r' := by
  obtain ⟨m, hwatched, hbatch, hwatchers, hworld, htexts⟩ := h
  obtain ⟨d, hreload, rfl⟩ := onDaemon_ok hrun
  obtain ⟨hwatchers', hworld'⟩ := reload_kernel hfiles hfiles' hwatchers hreload
  exact ⟨m, hwatched, hbatch, hwatchers', hworld'.trans hworld, htexts⟩

end

/-! ### Runs -/

/-- The daemon before it has watchers, with a configuration that watches the file only. -/
structure LogStart (path conffile : Bytes) (s : MainLoop (Daemon Handle Filesystem)) : Prop where
  installed : MainLoop.Installed s
  prepared : Prepared conffile s.data
  files : s.data.config.files = [path]
  unwatched : Unwatched s.data.world

/-- What a step leaves of the world and the configuration. Changes before the watcher is made are
in the first state already. -/
structure OneLog (path : Bytes) (allowed : Change → Prop) (s : MainLoop (Daemon Handle Filesystem))
    (a : LoopAction) (s' : MainLoop (Daemon Handle Filesystem)) : Prop where
  files : s'.data.config.files = [path]
  changed : a = .changed → s.point ≠ .installed ∧ ∃ c, allowed c ∧
    s.data.world.files.Allows (cstr (getBaseName path)) c ∧
      s'.data.world = s.data.world.change (cstr (getBaseName path)) c

/-- The daemon and its logfile: a step of the main loop, where the `read` of the inotify descriptor
delivers up to `k` events. -/
def LogStep (path : Bytes) (k : Nat) (allowed : Change → Prop) (conffile : Bytes) (capacity : Nat)
    (s : MainLoop (Daemon Handle Filesystem)) (a : LoopAction)
    (s' : MainLoop (Daemon Handle Filesystem)) : Prop :=
  MainLoop.Step capacity (Daemon.body (kernel path k) conffile) s a s' ∧ OneLog path allowed s a s'

/-- The invariant. -/
structure TailsAt (path : Bytes) (first : Files) (allowed : Change → Prop)
    (s : MainLoop (Recorder Handle Filesystem)) : Prop where
  files : s.data.daemon.config.files = [path]
  before : s.point = .installed → Unwatched s.data.daemon.world ∧
    s.data.daemon.world.files = first ∧ s.data.daemon.watchers = [] ∧ s.data.lines = []
  after : s.point ≠ .installed → s.point ≠ .exited → Tailing path first allowed s.data

section
variable {path conffile : Bytes} {first : Files} {k capacity : Nat} {allowed : Change → Prop}

/-- **The step lemma.** -/
theorem tailsAt_step {s s' : MainLoop (Recorder Handle Filesystem)} {a : LoopAction}
    (hdir : cstr path ≠ cstr (getDirName path)) (hs : TailsAt path first allowed s)
    (h : MainLoop.Step capacity (Recorder.body (kernel path k) conffile) s a s')
    (hlog : OneLog path allowed (viewed Recorder.daemon s) a (viewed Recorder.daemon s')) :
    TailsAt path first allowed s' := by
  obtain ⟨hfiles, hbefore, hafter⟩ := hs
  refine ⟨hlog.files, ?_, ?_⟩
  · cases h with
    | generated => exact hbefore
    | delivered _ _ => exact hbefore
    | changed hchange => exact fun hpoint => absurd hpoint (hlog.changed rfl).1
    | _ => exact nofun
  cases h with
  | generated => exact hafter
  | delivered _ _ => exact hafter
  | @changed data hchange =>
    intro hcreated hrunning
    obtain ⟨-, c, hallowed, hallows, hworld⟩ := hlog.changed rfl
    have hsame : data = { s.data with daemon.world := data.daemon.world } := hchange
    have hworld : data.daemon.world
        = s.data.daemon.world.change (cstr (getBaseName path)) c := hworld
    show Tailing path first allowed data
    rw [hsame, hworld]
    exact (hafter hcreated hrunning).changed hallowed hallows
  | created hpoint hrun =>
    intro _ _
    obtain ⟨hfs, hfirst, hwatchers, hlines⟩ := hbefore hpoint
    exact tailing_created hdir hfs hfirst hfiles hwatchers hlines hrun
  | checked hpoint hrun =>
    intro _ _
    exact (hafter (by simp [hpoint]) (by simp [hpoint])).checked hrun
  | reloaded file hpoint hrun =>
    intro _ _
    exact (hafter (by simp [hpoint]) (by simp [hpoint])).reloaded hfiles hlog.files hrun
  | createFailed => exact fun _ hrunning => absurd rfl hrunning
  | checkFailed => exact fun _ hrunning => absurd rfl hrunning
  | reloadFailed => exact fun _ hrunning => absurd rfl hrunning
  | unblockFailed => exact fun _ hrunning => absurd rfl hrunning
  | blockFailed => exact fun _ hrunning => absurd rfl hrunning
  | selectError => exact fun _ hrunning => absurd rfl hrunning
  | _ =>
    intro _ _
    exact hafter (by simp [‹s.point = _›]) (by simp [‹s.point = _›])

/-- The run lemma, for a recording of the run. -/
theorem tailsAt_of_run {s₀ s : MainLoop (Daemon Handle Filesystem)} {actions : List LoopAction}
    (hdir : cstr path ≠ cstr (getDirName path)) (hstart : LogStart path conffile s₀)
    (h : Run (· = s₀) (LogStep path k allowed conffile capacity) actions s) :
    ∃ r₀ r, Recorder.Started conffile r₀ ∧ viewed Recorder.daemon r₀ = s₀ ∧
      Run (· = r₀) (MainLoop.Step capacity (Recorder.body (kernel path k) conffile)) actions r ∧
        viewed Recorder.daemon r = s ∧ TailsAt path s₀.data.world.files allowed r := by
  let r₀ : MainLoop (Recorder Handle Filesystem) :=
    ⟨s₀.point, s₀.pending, s₀.pipe, ⟨s₀.data, []⟩⟩
  obtain ⟨file, future, -, hwatchers, -⟩ := hstart.prepared
  have hinit (t : MainLoop (Daemon Handle Filesystem)) (ht : t = s₀) :
      ∃ r, r = r₀ ∧ viewed Recorder.daemon r = t := ⟨r₀, rfl, ht.symm⟩
  obtain ⟨r, hr, rfl⟩ := records_body.run hinit (OneLog path allowed) h
  refine ⟨r₀, r, ⟨⟨hstart.installed.point, hstart.installed.pipe⟩, hstart.prepared, rfl⟩, rfl,
    hr.mono fun _ _ _ => And.left, rfl, ?_⟩
  refine hr.invariant ?_ fun _ _ _ _ hs hstep => tailsAt_step hdir hs hstep.1 hstep.2
  rintro _ rfl
  exact ⟨hstart.files, fun _ => ⟨hstart.unwatched, rfl, hwatchers, rfl⟩,
    fun hcreated => absurd hstart.installed.point hcreated⟩

end

/-! ### The files and the calls of `block` -/

/-- The recorded lines, with the delivery of each. -/
theorem exists_log {lines : List (ConfFile × Bytes)} {deliveries : List Delivery}
    (h : deliveries.map Delivery.text = lines.map Prod.snd) :
    ∃ log : List (ConfFile × Delivery), log.map Prod.snd = deliveries ∧
      (log.map fun e => (e.1, e.2.text)) = lines := by
  refine ⟨(lines.map Prod.fst).zip deliveries, ?_, ?_⟩
  · have hlength := congrArg List.length h
    rw [List.length_map, List.length_map] at hlength
    exact List.map_snd_zip (by simp [hlength])
  · have htexts : (lines.map Prod.fst).zip (deliveries.map Delivery.text) = lines := by
      rw [h, ← List.unzip_fst, ← List.unzip_snd, List.zip_unzip]
    rw [List.zip_map_right] at htexts
    exact htexts

/-- **What is blocked is in the logfile.** In every run of the daemon with one file to watch, its
watcher is a monitored one, and the run can be recorded: the lines that were passed to
`BlockingWatcher::processLine` are the deliveries of this watcher, in order. They are stretches of
the files, each of them a line or what there was of one. For each call of `block`, one of them
captures the address under a configuration that does not exempt it, and more captures count for it
than this configuration allows. -/
theorem blocked_on_log {path conffile : Bytes} {k capacity : Nat} {actions : List LoopAction}
    {s : MainLoop (Daemon Handle Filesystem)} (hdir : cstr path ≠ cstr (getDirName path))
    (h : Run (LogStart path conffile) (LogStep path k (fun _ => True) conffile capacity) actions s)
    (hcreated : s.point ≠ .installed) (hrunning : s.point ≠ .exited) :
    ∃ (r : MainLoop (Recorder Handle Filesystem)) (m : Monitored)
      (log : List (ConfFile × Delivery)),
      (Run (Recorder.Started conffile)
          (MainLoop.Step capacity (Recorder.body (kernel path k) conffile)) actions r ∧
        viewed Recorder.daemon r = s ∧ r.data.lines = log.map fun e => (e.1, e.2.text)) ∧
      Reachable (Constructed path) (Transition path) m ∧
      (s.data.watchers = [m.call.self] ∧ s.data.world = m.call.world ∧
        m.call.client = log.map Prod.snd) ∧
      (∀ e ∈ log, Genuine (s.data.world.files.content e.2.file.handle.inode) e.2) ∧
      ∀ a ∈ s.data.store.blockCalls, ∃ e ∈ log, (e.1, a) ∈ captures (e.1, e.2.text) ∧
        isExempted e.1 a = false ∧
        e.1.rateMax < (log.flatMap fun e => captures (e.1, e.2.text)).countP (isEvidence a) := by
  obtain ⟨s₀, hstart, hrun⟩ := h.exists_first
  obtain ⟨r₀, r, hr₀, -, hr, rfl, htails⟩ := tailsAt_of_run hdir hstart hrun
  obtain ⟨m, hwatched, -, hwatchers, hworld, htexts⟩ := htails.after hcreated hrunning
  have hreach := hwatched.of_guarded.of_init fun _ => And.left
  obtain ⟨log, hdeliveries, hlines⟩ := exists_log htexts
  have hstarted := hr.of_init fun _ hr₁ => hr₁ ▸ hr₀
  refine ⟨r, m, log, ⟨hstarted, rfl, hlines.symm⟩, hreach, ⟨hwatchers, hworld, hdeliveries.symm⟩,
    ?_, ?_⟩
  · intro e he
    have hmem : e.2 ∈ m.call.client := hdeliveries ▸ List.mem_map_of_mem he
    show Genuine (r.data.daemon.world.files.content e.2.file.handle.inode) e.2
    rw [hworld]
    exact (honest_of_reachable hreach).2.genuine e.2 hmem
  · intro a ha
    obtain ⟨entry, hentry, hcaptured, hexempt, hrate⟩ :=
      evidence_of_recordedAt (recordedAt_of_run hr₀ hr) ha
    rw [← hlines] at hentry hrate
    obtain ⟨e, he, rfl⟩ := List.mem_map.mp hentry
    rw [List.flatMap_map] at hrate
    exact ⟨e, he, hcaptured, hexempt, hrate⟩

/-- The start of the daemon, and a change. -/
theorem run_changed {path conffile : Bytes} {k capacity : Nat} {allowed : Change → Prop}
    {init : MainLoop (Daemon Handle Filesystem) → Prop} {d₀ d₁ d₂ : Daemon Handle Filesystem}
    {c : Change} (hinit : init ⟨.installed, false, 0, d₀⟩)
    (hcreate : Daemon.create (kernel path k) d₀ = .ok () d₁) (hallowed : allowed c)
    (hallows : d₁.world.files.Allows (cstr (getBaseName path)) c)
    (hchange : d₂ = { d₁ with world := d₁.world.change (cstr (getBaseName path)) c })
    (hfiles : d₂.config.files = [path]) :
    Run init (LogStep path k allowed conffile capacity) [.created, .changed]
      ⟨.top, false, 0, d₂⟩ := by
  subst hchange
  have hcreated : Run init (LogStep path k allowed conffile capacity) [.created]
      ⟨.top, false, 0, d₁⟩ :=
    .next (.start hinit) ⟨.created rfl hcreate, hfiles, nofun⟩
  exact .next hcreated ⟨.changed rfl, hfiles, fun _ => ⟨nofun, c, hallowed, hallows, rfl⟩⟩

/-- One turn of the inner loop, after a change. -/
theorem run_logged {path conffile : Bytes} {k capacity : Nat} {allowed : Change → Prop}
    {init : MainLoop (Daemon Handle Filesystem) → Prop} {d₂ d₃ : Daemon Handle Filesystem}
    (hchanged : Run init (LogStep path k allowed conffile capacity) [.created, .changed]
      ⟨.top, false, 0, d₂⟩)
    (hcheck : Daemon.check (kernel path k) (fun _ => true) d₂ = .ok () d₃)
    (hfiles : d₂.config.files = [path]) (hfiles' : d₃.config.files = [path]) :
    Run init (LogStep path k allowed conffile capacity) readActions
      ⟨.checked false, false, 0, d₃⟩ := by
  have hwaiting := hchanged.next ⟨.unblocked rfl, hfiles, nofun⟩
  have hselected := hwaiting.next
    ⟨.selected (fun _ => true) rfl (by decide : false = true ↔ 0 < 0), hfiles, nofun⟩
  have hblocked := hselected.next ⟨.blocked rfl, hfiles, nofun⟩
  exact hblocked.next ⟨.checked rfl hcheck, hfiles', nofun⟩

end

/-! ### Two lines -/

/-- Reading does not change the files. -/
theorem files_twoLinesRead :
    letI := wholeLine
    twoLinesRead.config.files = [lit "/log"] := by decide +kernel

/-- The two lines were appended. -/
theorem files_twoLines :
    letI := wholeLine
    twoLines.config.files = [lit "/log"] := by decide +kernel

/-- The daemon of the example starts with the log. -/
theorem logStart_wholeLineDaemon :
    letI := wholeLine
    LogStart (lit "/log") (lit "blockad.conf") ⟨.installed, false, 0, wholeLineDaemon⟩ := by
  let _ := wholeLine
  exact ⟨⟨rfl, rfl⟩, started_wholeLineDaemon.prepared, rfl, unwatched_oneFile⟩

/-- The two lines, as a change of the logfile. -/
abbrev appendTwoLines : Change := .append 0 (lit "192.0.2.1\n192.0.2.1\n")

/-- The two lines are a change of the world. -/
theorem twoLines_eq :
    letI := wholeLine
    twoLines = { stateOf (Daemon.create (kernel (lit "/log") 1) wholeLineDaemon) with
      world := (stateOf (Daemon.create (kernel (lit "/log") 1) wholeLineDaemon)).world.change
        (cstr (getBaseName (lit "/log"))) appendTwoLines } := by
  have hname : cstr (getBaseName (lit "/log")) = lit "log" := by decide
  rw [hname]
  rfl

/-- It is possible. -/
theorem allows_appendTwoLines :
    letI := wholeLine
    (stateOf (Daemon.create (kernel (lit "/log") 1) wholeLineDaemon)).world.files.Allows
      (cstr (getBaseName (lit "/log"))) appendTwoLines := by decide +kernel

/-- A run up to the change. -/
theorem run_changed_twoLines {allowed : Change → Prop} (hallowed : allowed appendTwoLines) :
    letI := wholeLine
    Run (· = (⟨.installed, false, 0, wholeLineDaemon⟩ : MainLoop (Daemon Handle Filesystem)))
      (LogStep (lit "/log") 1 allowed (lit "blockad.conf") 65536) [.created, .changed]
      ⟨.top, false, 0, twoLines⟩ :=
  @run_changed wholeLine (lit "/log") (lit "blockad.conf") 1 65536 allowed _ wholeLineDaemon _
    twoLines appendTwoLines rfl create_wholeLineDaemon hallowed allows_appendTwoLines twoLines_eq
    files_twoLines

/-- A run up to the end of the pass. -/
theorem run_logged_twoLinesRead {allowed : Change → Prop} (hallowed : allowed appendTwoLines) :
    letI := wholeLine
    Run (· = (⟨.installed, false, 0, wholeLineDaemon⟩ : MainLoop (Daemon Handle Filesystem)))
      (LogStep (lit "/log") 1 allowed (lit "blockad.conf") 65536) readActions
      ⟨.checked false, false, 0, twoLinesRead⟩ :=
  @run_logged wholeLine (lit "/log") (lit "blockad.conf") 1 65536 allowed _ twoLines twoLinesRead
    (run_changed_twoLines hallowed) check_twoLines files_twoLines files_twoLinesRead

/-- Two lines in the log, and the address in them. -/
theorem blocked_on_log_twoLinesRead :
    letI := wholeLine
    ∃ (r : MainLoop (Recorder Handle Filesystem)) (m : Monitored)
      (log : List (ConfFile × Delivery)),
      viewed Recorder.daemon r = ⟨.checked false, false, 0, twoLinesRead⟩ ∧
      (r.data.lines = log.map fun e => (e.1, e.2.text)) ∧ m.call.client = log.map Prod.snd ∧
      Reachable (Constructed (lit "/log")) (Transition (lit "/log")) m ∧
        ∃ e ∈ log, (e.1, ⟨mapped4 #v[192, 0, 2, 1]⟩) ∈ captures (e.1, e.2.text) ∧
          Genuine (twoLinesRead.world.files.content e.2.file.handle.inode) e.2 := by
  let _ := wholeLine
  have hrun := (@run_logged_twoLinesRead (fun _ => True) trivial).of_init fun s hs =>
    hs ▸ logStart_wholeLineDaemon
  obtain ⟨r, m, log, ⟨-, hview, hlines⟩, hreach, ⟨-, -, hclient⟩, hgenuine, hcalls⟩ :=
    @blocked_on_log wholeLine (lit "/log") (lit "blockad.conf") 1 65536 readActions _ (by decide)
      hrun nofun nofun
  dsimp only at hgenuine hcalls
  have hcalled : ⟨mapped4 #v[192, 0, 2, 1]⟩ ∈ twoLinesRead.store.blockCalls := by
    rw [blockCalls_twoLinesRead]
    exact List.mem_cons_self
  obtain ⟨e, he, hcaptured, -, -⟩ := hcalls _ hcalled
  exact ⟨r, m, log, hview, hlines, hclient, hreach, e, he, hcaptured,
    hgenuine e he⟩

end Blockad.Proofs
