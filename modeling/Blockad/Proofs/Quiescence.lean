import Blockad.Proofs.Appends

/-!
# `Blockad.Proofs.Quiescence`: the daemon when nothing else happens

The results about the logfile and the calls of `block` are about what was read. Here the daemon gets
to read it: when the file system and the signals are quiet, its own steps take it there. The
promises of `select` are in `Proceeds`: it is not interrupted without a signal, and it shows an
inotify event that is queued.

* `stepsToRest`: the measure. Each turn of the inner loop reads events, and only a `select` that
  looked before them, or a reload, is in between.
* `daemon_settles`: every run comes to a state without inotify events where the file at the path is
  open and read to its end, unless the daemon exits.
* `blocked_in_the_end`: so `block` is called for the addresses that too many of the appended lines
  capture, and for no other one.
-/

set_option autoImplicit false

namespace Blockad.Proofs

open Bytes Inevitability Lines Pieces Prog Runs Watcher InotifyWatcher Monitored

/-! ### The watcher -/

section
variable {path : Bytes}

/-- Closing keeps the descriptor of inotify. -/
@[simp] theorem ifd_shut (c : Site) : (shut c).self.own.ifd = c.self.own.ifd := by
  unfold shut unwatch
  split <;> [rfl; (split <;> rfl)]

/-- Opening keeps it. -/
@[simp] theorem ifd_reopen {α : Type} (c : Call Handle Inotify α Filesystem) :
    (reopen c).self.own.ifd = c.self.own.ifd := by
  unfold reopen
  split <;> rfl

/-- Handling an event keeps it. -/
@[simp] theorem ifd_respond (e : InotifyEvent) (c : Site) :
    (respond e c).self.own.ifd = c.self.own.ifd := by
  unfold respond
  split
  · split <;> simp
  · split <;> simp

/-- The watcher reads files, and writes none. -/
theorem content_respond (e : InotifyEvent) (c : Site) :
    (respond e c).world.files.content = c.world.files.content := by
  unfold respond
  split
  · split
    · rw [files_shut, world_readAll]
    · rw [world_readAll]
  · split
    · rw [world_readAll, files_reopen, files_shut]
    · rfl

/-- The inotify descriptor of the watcher, and the events to come. -/
theorem alert_of_watched {first : Files} {allowed : Change → Prop} {m : Monitored}
    (hbase : cstr (getBaseName path) ≠ []) (h : Watched path first allowed m) :
    Alert path m.call (coming m) ∧ m.call.self.own.ifd = 3 := by
  have hinit (s : Monitored) (hs : Constructed path s ∧ s.call.world.files = first) :
      Alert path s.call (coming s) ∧ s.call.self.own.ifd = 3 := by
    obtain ⟨fs, -, -, -, -, -, hself⟩ := constructed_cases hs.1
    refine ⟨alert_of_constructed hs.1, ?_⟩
    rw [hself]
    exact ifd_reopen _
  refine h.invariant hinit ?_
  rintro s a s' ⟨halert, hifd⟩ ⟨-, hstep⟩
  refine ⟨alert_step hbase halert hstep, ?_⟩
  cases hstep with
  | changed hallows => exact hifd
  | read hbatch hpos hle => exact hifd
  | handled hbatch hrun =>
    rw [coming, hbatch, List.cons_append] at halert
    rw [handleEvent_eq halert.wired halert.toListening.open_of_fileWd] at hrun
    cases hrun
    exact (ifd_respond _ _).trans hifd

/-- What the steps of the watcher leave of the files, and of the events. -/
theorem works_keep {m m' : Monitored} (hbase : cstr (getBaseName path) ≠ [])
    (hm : Alert path m.call (coming m)) (h : Works path m m') :
    Alert path m'.call (coming m') ∧ m'.call.world.files.content = m.call.world.files.content := by
  rcases h with ⟨k, hstep⟩ | hstep
  · refine ⟨alert_step hbase hm hstep, ?_⟩
    cases hstep
    rfl
  · refine ⟨alert_step hbase hm hstep, ?_⟩
    cases hstep with
    | handled hbatch hrun =>
      rw [coming, hbatch, List.cons_append] at hm
      rw [handleEvent_eq hm.wired hm.toListening.open_of_fileWd] at hrun
      cases hrun
      exact content_respond _ _

/-- Steps of the watcher keep the contents, and what is to come. -/
theorem reflTransGen_keep {m m' : Monitored} (hbase : cstr (getBaseName path) ≠ [])
    (hm : Alert path m.call (coming m)) (h : Relation.ReflTransGen (Works path) m m') :
    Alert path m'.call (coming m') ∧ m'.call.world.files.content = m.call.world.files.content := by
  induction h with
  | refl => exact ⟨hm, rfl⟩
  | tail _ hstep ih =>
    obtain ⟨halert, hcontent⟩ := works_keep hbase ih.1 hstep
    exact ⟨halert, hcontent.trans ih.2⟩

/-- **All steps of the watcher** are steps towards the end. -/
theorem workLeft_lt_of_transGen {m m' : Monitored} (hbase : cstr (getBaseName path) ≠ [])
    (hm : Alert path m.call (coming m)) (h : Relation.TransGen (Works path) m m') :
    workLeft path m' < workLeft path m := by
  induction h with
  | single hstep => exact workLeft_lt hbase hm hstep
  | tail hsteps hstep ih =>
    have halert := (reflTransGen_keep hbase hm hsteps.to_reflTransGen).1
    exact (workLeft_lt hbase halert hstep).trans ih

end

/-! ### The measure -/

/-- `select` did not show the watcher. -/
def missed : Selected → Bool
  | .failed errno => errno = .EINTR
  | .ready _ watchers => !watchers 0

/-- The steps until the watchers are checked with what `select` shows then, and those of the turn
after it. -/
def phase : Point → Nat
  | .installed => 0
  | .top => 8
  | .waiting => 7
  | .selected result => if missed result then 13 else 6
  | .blocked result => if missed result then 12 else 5
  | .checked _ => 11
  | .drained => 10
  | .reading => 9
  | .exited => 0

section
variable [Libc] {path conffile : Bytes} {first : Files} {allowed : Change → Prop} {k capacity : Nat}

/-- The events that are queued, with what they cost. -/
def eventsLeft (path : Bytes) (d : Daemon Handle Filesystem) : Nat :=
  (d.world.inotify.queue.map fun e => cost path e + 1).sum

/-- A pass over the watchers pays for a whole turn, and a signal may be delivered in between. -/
def stepsToRest (path : Bytes) (s : MainLoop (Daemon Handle Filesystem)) : Nat :=
  2 * (16 * eventsLeft path s.data + phase s.point) + s.pending.toNat

/-- What `select` promises about a queue of events, where there are no signals. -/
def Shows (queue : List InotifyEvent) : Selected → Prop
  | .failed errno => errno ≠ .EINTR
  | .ready _ watchers => queue ≠ [] → watchers 0 = true

/-- A step of the daemon while no file is changed, and no signal is sent. -/
def Proceeds (path : Bytes) (k : Nat) (conffile : Bytes) (capacity : Nat)
    (s s' : MainLoop (Daemon Handle Filesystem)) : Prop :=
  ∃ a, a ≠ .generated ∧ LogStep path k (fun _ => False) conffile capacity s a s' ∧
    (a = .selected → ∀ result, s'.point = .selected result →
      Shows s.data.world.inotify.queue result)

/-! ### One pass -/

/-- **A pass over the watchers** leaves the contents of the files as they are. With an event, and if
`select` shows the watcher, it is a step towards the end. -/
theorem check_keeps {r r' : Recorder Handle Filesystem} {ready : Nat → Bool}
    (hbase : cstr (getBaseName path) ≠ []) (h : Tailing path first allowed r)
    (hrun : Recorder.check (kernel path k) ready r = .ok () r') :
    r'.daemon.world.files.content = r.daemon.world.files.content ∧
      if ready 0 then
        0 < k → r.daemon.world.inotify.queue ≠ [] →
          eventsLeft path r'.daemon < eventsLeft path r.daemon
      else eventsLeft path r'.daemon = eventsLeft path r.daemon := by
  obtain ⟨m, hm⟩ := h
  obtain ⟨call, hcall, hworked⟩ := hm.checked hrun
  obtain ⟨halert, hifd⟩ := alert_of_watched hbase hm.watched
  have hsite : m = ⟨m.call, []⟩ := by rw [← hm.batch]
  have hleft : eventsLeft path r.daemon = workLeft path m := by
    rw [eventsLeft, workLeft, hm.world_eq, hm.batch]
    simp
  have hleft' : eventsLeft path r'.daemon = workLeft path ⟨call, []⟩ := by
    rw [eventsLeft, workLeft, hcall.world_eq]
    simp
  have hpoll : 0 ≤ InotifyWatcher.pollfd m.call.self := by
    show 0 ≤ m.call.self.own.ifd
    omega
  rw [hleft, hleft', hm.world_eq, hcall.world_eq]
  cases hready : ready 0 with
  | false =>
    rw [hready, Bool.and_false, if_neg Bool.false_ne_true] at hworked
    subst hworked
    exact ⟨rfl, congrArg (workLeft path) hsite.symm⟩
  | true =>
    rw [hready, Bool.and_true, if_pos (by simpa using hpoll)] at hworked
    obtain ⟨hsteps, hall⟩ := works_work hworked
    rw [← hsite] at hsteps hall
    refine ⟨(reflTransGen_keep hbase halert hsteps).2, ?_⟩
    rw [if_pos rfl]
    intro hk hqueue
    refine workLeft_lt_of_transGen hbase halert (hall ?_)
    have hpos := List.length_pos_iff.mpr hqueue
    omega

/-! ### One step -/

/-- More changes may be allowed. -/
theorem OneLog.mono {allowed' : Change → Prop} {s s' : MainLoop (Daemon Handle Filesystem)}
    {a : LoopAction} (h : OneLog path allowed s a s') (himp : ∀ c, allowed c → allowed' c) :
    OneLog path allowed' s a s' := by
  refine ⟨h.files, fun ha => ?_⟩
  obtain ⟨hpoint, c, hallowed, hrest⟩ := h.changed ha
  exact ⟨hpoint, c, himp c hallowed, hrest⟩

/-- What a step of the daemon keeps, and that it is one towards the end while there are events. -/
structure Nears (path : Bytes) (s s' : MainLoop (Daemon Handle Filesystem)) : Prop where
  content : s'.data.world.files.content = s.data.world.files.content
  fewer : s.data.world.inotify.queue ≠ [] → stepsToRest path s' < stepsToRest path s

/-- A step that leaves the events alone. -/
theorem Nears.of_phase {s s' : MainLoop (Daemon Handle Filesystem)}
    (hworld : s'.data.world = s.data.world) (hpending : s'.pending = s.pending)
    (hphase : phase s'.point < phase s.point) : Nears path s s' := by
  refine ⟨by rw [hworld], fun _ => ?_⟩
  unfold stepsToRest eventsLeft
  rw [hworld, hpending]
  omega

/-- **One step.** -/
theorem nears_step {r r' : MainLoop (Recorder Handle Filesystem)} {a : LoopAction}
    (hk : 0 < k) (hbase : cstr (getBaseName path) ≠ []) (hr : TailsAt path first allowed r)
    (hcreated : r.point ≠ .installed) (hgenerated : a ≠ .generated)
    (h : MainLoop.Step capacity (Recorder.body (kernel path k) conffile) r a r')
    (hlog : OneLog path (fun _ => False) (viewed Recorder.daemon r) a (viewed Recorder.daemon r'))
    (hshows : a = .selected → ∀ result, r'.point = .selected result →
      Shows r.data.daemon.world.inotify.queue result) :
    r'.point ≠ .installed ∧ (r'.point = .exited ∨
      Nears path (viewed Recorder.daemon r) (viewed Recorder.daemon r')) := by
  cases h with
  | generated => exact absurd rfl hgenerated
  | delivered hpending hpoint =>
    refine ⟨hcreated, .inr ⟨rfl, fun _ => ?_⟩⟩
    simp [stepsToRest, viewed, hpending]
  | changed hchange =>
    obtain ⟨-, c, hnone, -⟩ := hlog.changed rfl
    exact hnone.elim
  | created hpoint hrun => exact absurd hpoint hcreated
  | unblocked hpoint => exact ⟨nofun, .inr (.of_phase rfl rfl (by simp [viewed, hpoint, phase]))⟩
  | @selected pipe watchers hpoint hpipe =>
    have hready := hshows rfl _ rfl
    refine ⟨nofun, .inr ⟨rfl, fun hqueue => ?_⟩⟩
    have hseen : missed (.ready pipe watchers) = false := by simp [missed, hready hqueue]
    simp [stepsToRest, viewed, hpoint, phase, hseen, eventsLeft]
  | selectFailed errno hpoint =>
    have herrno : errno ≠ .EINTR := hshows rfl _ rfl
    refine ⟨nofun, .inr (.of_phase rfl rfl ?_)⟩
    simp [viewed, hpoint, phase, missed, herrno]
  | @blocked result hpoint =>
    refine ⟨nofun, .inr (.of_phase rfl rfl ?_)⟩
    cases hmissed : missed result <;> simp [viewed, hpoint, phase, hmissed]
  | interrupted hpoint =>
    exact ⟨nofun, .inr (.of_phase rfl rfl (by simp [viewed, hpoint, phase, missed]))⟩
  | @checked pipe watchers data hpoint hrun =>
    have htailing := hr.after hcreated (by simp [hpoint])
    obtain ⟨hcontent, hleft⟩ := check_keeps hbase htailing hrun
    refine ⟨nofun, .inr ⟨hcontent, fun hqueue => ?_⟩⟩
    unfold stepsToRest
    show 2 * (16 * eventsLeft path data.daemon + 11) + r.pending.toNat
      < 2 * (16 * eventsLeft path r.data.daemon + phase r.point) + r.pending.toNat
    rw [hpoint]
    cases hready : watchers 0 with
    | true =>
      rw [hready, if_pos rfl] at hleft
      have hlt := hleft hk hqueue
      have hphase : phase (.blocked (.ready pipe watchers)) = 5 := by simp [phase, missed, hready]
      omega
    | false =>
      rw [hready, if_neg Bool.false_ne_true] at hleft
      have hphase : phase (.blocked (.ready pipe watchers)) = 12 := by simp [phase, missed, hready]
      omega
  | repeated hpoint => exact ⟨nofun, .inr (.of_phase rfl rfl (by simp [viewed, hpoint, phase]))⟩
  | drained hpoint => exact ⟨nofun, .inr (.of_phase rfl rfl (by simp [viewed, hpoint, phase]))⟩
  | readBegan hpoint => exact ⟨nofun, .inr (.of_phase rfl rfl (by simp [viewed, hpoint, phase]))⟩
  | reloaded file hpoint hrun =>
    obtain ⟨m, hm⟩ := hr.after hcreated (by simp [hpoint])
    obtain ⟨d, hreload, rfl⟩ := onDaemon_ok hrun
    have hworld := (reload_kernel hr.files hlog.files hm.watchers_eq hreload).2
    exact ⟨nofun, .inr (.of_phase hworld rfl (by simp [viewed, hpoint, phase]))⟩
  | createFailed hpoint hrun => exact absurd hpoint hcreated
  | unblockFailed hpoint => exact ⟨nofun, .inl rfl⟩
  | blockFailed hpoint => exact ⟨nofun, .inl rfl⟩
  | selectError hpoint herrno => exact ⟨nofun, .inl rfl⟩
  | checkFailed hpoint hrun => exact ⟨nofun, .inl rfl⟩
  | reloadFailed file hpoint hrun => exact ⟨nofun, .inl rfl⟩

/-! ### Where the steps lead -/

/-- No event is queued, and the watcher has the file open that is at the path, if there is one, and
has read it to its end. -/
structure CaughtUp (d : Daemon Handle Filesystem) : Prop where
  queue : d.world.inotify.queue = []
  read : ∃ watcher, d.watchers = [watcher] ∧
    watcher.fp.map (fun f => (f.handle.inode, f.offset))
      = d.world.files.occupant.map fun i => (i, (d.world.files.content i).length)

/-- The daemon has exited, or has nothing to do. -/
def Settled (s : MainLoop (Daemon Handle Filesystem)) : Prop :=
  s.point = .exited ∨ CaughtUp s.data

/-- Without events, the watcher has caught up. -/
theorem Tailing.caughtUp {r : Recorder Handle Filesystem} (hbase : cstr (getBaseName path) ≠ [])
    (h : Tailing path first allowed r) (hqueue : r.daemon.world.inotify.queue = []) :
    CaughtUp r.daemon := by
  obtain ⟨m, hwatched, hbatch, hwatchers, hworld, -⟩ := h
  have halert := (alert_of_watched hbase hwatched).1
  rw [coming, hbatch, ← hworld, hqueue] at halert
  have huptodate := halert.upToDate_of_nil
  refine ⟨hqueue, _, hwatchers, ?_⟩
  unfold UpToDate at huptodate
  rw [hworld]
  cases hocc : m.call.world.files.occupant with
  | none =>
    rw [hocc] at huptodate
    rw [huptodate]
    rfl
  | some i =>
    rw [hocc] at huptodate
    obtain ⟨f, hfp, rfl, hoffset, -⟩ := huptodate
    rw [hfp, Option.map_some, Option.map_some, hoffset]

/-- Checking the watchers leaves the configuration alone. -/
theorem config_check {H W : Type} (os : Syscalls H W) (ready : Nat → Bool) (d : Daemon H W) :
    (stateOf (Daemon.check os ready d)).config = d.config := by
  unfold Daemon.check
  split <;> rfl

/-- **The daemon can always go on**, until it exits. -/
theorem exists_proceeds {s : MainLoop (Daemon Handle Filesystem)}
    (hfiles : s.data.config.files = [path]) (hcreated : s.point ≠ .installed)
    (hrunning : s.point ≠ .exited) : ∃ s', Proceeds path k conffile capacity s s' := by
  have hown {a : LoopAction} {s' : MainLoop (Daemon Handle Filesystem)}
      (hstep : MainLoop.Step capacity (Daemon.body (kernel path k) conffile) s a s')
      (hconfig : s'.data.config = s.data.config)
      (ha : a ≠ .generated ∧ a ≠ .changed ∧ a ≠ .selected) :
      ∃ s', Proceeds path k conffile capacity s s' :=
    ⟨s', a, ha.1, ⟨hstep, hconfig ▸ hfiles, fun h => absurd h ha.2.1⟩,
      fun h => absurd h ha.2.2⟩
  cases hp : s.point with
  | exited => exact absurd hp hrunning
  | installed => exact absurd hp hcreated
  | top => exact hown (.unblocked hp) rfl (by simp)
  | waiting =>
    have hready : decide (0 < s.pipe) = true ↔ 0 < s.pipe := decide_eq_true_iff
    refine ⟨_, .selected, nofun, ⟨.selected (fun _ => true) hp hready, hfiles, nofun⟩, ?_⟩
    rintro - _ ⟨⟩ -
    rfl
  | selected result => exact hown (.blocked hp) rfl (by simp)
  | blocked result =>
    cases result with
    | failed errno =>
      by_cases herrno : errno = .EINTR
      · rw [herrno] at hp
        exact hown (.interrupted hp) rfl (by simp)
      · exact hown (.selectError hp herrno) rfl (by simp)
    | ready pipe watchers =>
      have hconfig := config_check (kernel path k) watchers s.data
      cases hrun : Daemon.check (kernel path k) watchers s.data with
      | ok u data =>
        rw [hrun] at hconfig
        exact hown (.checked hp hrun) hconfig (by simp)
      | error halt data =>
        rw [hrun] at hconfig
        exact hown (.checkFailed hp hrun) hconfig (by simp)
  | checked pipe =>
    cases pipe with
    | true => exact hown (.drained hp) rfl (by simp)
    | false => exact hown (.repeated hp) rfl (by simp)
  | drained => exact hown (.readBegan hp) rfl (by simp)
  | reading =>
    -- The configuration stays as it is if its file cannot be opened.
    have hreload : Daemon.reload (kernel path k) conffile (.error .ENOENT) s.data
        = .ok () s.data := rfl
    exact hown (.reloaded (.error .ENOENT) hp hreload) rfl (by simp)

/-- **From every state** after the creation. -/
theorem settles_of_tailsAt {r : MainLoop (Recorder Handle Filesystem)} (hk : 0 < k)
    (hdir : cstr path ≠ cstr (getDirName path)) (hbase : cstr (getBaseName path) ≠ [])
    (hr : TailsAt path first allowed r) (hcreated : r.point ≠ .installed) :
    Inevitably (Proceeds path k conffile capacity) Settled (viewed Recorder.daemon r) := by
  refine inevitably_of_measure
    (fun s => s.point ≠ .installed ∧
      ∃ r, TailsAt path first allowed r ∧ viewed Recorder.daemon r = s)
    (stepsToRest path) ?_ ?_ ⟨hcreated, r, hr, rfl⟩
  · rintro _ ⟨hcreated, r, hr, rfl⟩
    by_cases hrunning : r.point = .exited
    · exact .inl (.inl hrunning)
    · exact .inr (exists_proceeds hr.files hcreated hrunning)
  · rintro _ s' ⟨hcreated, r, hr, rfl⟩ hsettled ⟨a, hgenerated, ⟨hstep, hlog⟩, hshows⟩
    obtain ⟨r', hstep', rfl⟩ := records_body.step hstep
    have hr' := tailsAt_step hdir hr hstep' (hlog.mono fun _ => False.elim)
    have hqueue : r.data.daemon.world.inotify.queue ≠ [] := by
      intro hqueue
      have hrunning : r.point ≠ .exited := fun hpoint => hsettled (.inl hpoint)
      exact hsettled (.inr ((hr.after hcreated hrunning).caughtUp hbase hqueue))
    obtain ⟨hcreated', hexited | hnears⟩ :=
      nears_step hk hbase hr hcreated hgenerated hstep' hlog hshows
    · exact .inl (.inl hexited)
    · exact .inr ⟨⟨hcreated', r', hr', rfl⟩, hnears.fewer hqueue⟩

/-- **The daemon catches up.** At any point of any run with one file to watch, whatever was changed
and signalled until then: if nothing else is, then whatever steps the daemon takes, it comes to a
state where no event is queued and its watcher has read the file at the path to its end, or it
exits. -/
theorem daemon_settles {actions : List LoopAction} {s : MainLoop (Daemon Handle Filesystem)}
    (hk : 0 < k) (hdir : cstr path ≠ cstr (getDirName path)) (hbase : cstr (getBaseName path) ≠ [])
    (h : Run (LogStart path conffile) (LogStep path k (fun _ => True) conffile capacity) actions s)
    (hcreated : s.point ≠ .installed) :
    Inevitably (Proceeds path k conffile capacity) Settled s := by
  obtain ⟨s₀, hstart, hrun⟩ := h.exists_first
  obtain ⟨r₀, r, -, -, -, rfl, hr⟩ := tailsAt_of_run hdir hstart hrun
  exact settles_of_tailsAt hk hdir hbase hr hcreated

end

/-! ### Without a signal -/

section
variable {σ : Type} {body : Body σ} {capacity : Nat}

/-- The program knows of a signal. -/
def heardSignal : Point → Bool
  | .selected (.ready pipe _) => pipe
  | .blocked (.ready pipe _) => pipe
  | .checked pipe => pipe
  | .drained => true
  | .reading => true
  | _ => false

/-- There is no trace of a signal. -/
structure SignalFree (s : MainLoop σ) : Prop where
  pending : s.pending = false
  pipe : s.pipe = 0
  point : heardSignal s.point = false

/-- **Without a signal** there is no reload. -/
theorem signalFree_of_run {s₀ s : MainLoop σ} {actions : List LoopAction}
    (hs₀ : SignalFree s₀) (h : Run (· = s₀) (MainLoop.Step capacity body) actions s)
    (hgenerated : .generated ∉ actions) : SignalFree s ∧ .reloaded ∉ actions := by
  induction h with
  | start h => exact ⟨h ▸ hs₀, by simp⟩
  | @next actions s s' a _ hstep ih =>
    rw [List.mem_append, not_or, List.mem_singleton] at hgenerated
    obtain ⟨⟨hpending, hpipe, hpoint⟩, hreload⟩ := ih hgenerated.1
    have hkeeps : SignalFree s' ∧ a ≠ .reloaded := by
      cases hstep with
      | generated => exact absurd rfl hgenerated.2
      | delivered hpending' _ =>
        rw [hpending'] at hpending
        cases hpending
      | changed _ => exact ⟨⟨hpending, hpipe, hpoint⟩, nofun⟩
      | selected watchers _ hready =>
        refine ⟨⟨hpending, hpipe, ?_⟩, nofun⟩
        rw [hpipe] at hready
        simpa [heardSignal] using hready
      | blocked hat =>
        rw [hat] at hpoint
        refine ⟨⟨hpending, hpipe, ?_⟩, nofun⟩
        rw [← hpoint]
        cases ‹Selected› <;> rfl
      | checked hat _ =>
        rw [hat] at hpoint
        exact ⟨⟨hpending, hpipe, hpoint⟩, nofun⟩
      | drained hat =>
        rw [hat] at hpoint
        cases hpoint
      | readBegan hat =>
        rw [hat] at hpoint
        cases hpoint
      | reloaded _ hat _ =>
        rw [hat] at hpoint
        cases hpoint
      | _ => exact ⟨⟨hpending, hpipe, rfl⟩, nofun⟩
    refine ⟨hkeeps.1, ?_⟩
    rw [List.mem_append, not_or, List.mem_singleton]
    exact ⟨hreload, hkeeps.2.symm⟩

end

/-! ### The calls of `block` -/

section
variable [Libc] {path conffile : Bytes} {k capacity : Nat}

/-- **In the end the daemon has blocked what it should.** The logfile stays at its path from the
start of the daemon on, the clock does not go back, and no signal is sent. At any point of such a
run, when nothing more is appended: whatever steps the daemon takes, it comes to a state where
`block` has been called for an address exactly if, at one of its captures in all the lines that were
appended, more of them counted within the interval than the configuration allows, or it exits. -/
theorem blocked_in_the_end {i : Nat} {actions : List LoopAction}
    {s₀ s : MainLoop (Daemon Handle Filesystem)} (hk : 0 < k)
    (hdir : cstr path ≠ cstr (getDirName path)) (hbase : cstr (getBaseName path) ≠ [])
    (hstart : LogStart path conffile s₀) (hpending : s₀.pending = false)
    (hocc : s₀.data.world.files.occupant = some i)
    (hclock : ∀ n, (s₀.data.store.future n).now ≤ (s₀.data.store.future (n + 1)).now)
    (h : Run (· = s₀) (LogStep path k Stays conffile capacity) actions s)
    (hcreated : s.point ≠ .installed) (hrunning : s.point ≠ .exited)
    (hgenerated : .generated ∉ actions) :
    ∃ more, s.data.world.files.content i = s₀.data.world.files.content i ++ more ∧
      Inevitably (Proceeds path k conffile capacity) (fun t => t.point = .exited ∨
        ∀ a, a ∈ t.data.store.blockCalls ↔
          ∃ before d, before ++ [d] <+: detectionsAt s₀.data.store.future
              (((pieces nl more).map (s₀.data.config, ·)).flatMap captures) ∧
            d.address = a ∧ TooMany before d) s := by
  obtain ⟨r₀, r, -, -, -, rfl, hr⟩ := tailsAt_of_run hdir hstart h
  obtain ⟨m, hm⟩ := hr.after hcreated hrunning
  obtain ⟨more, n, hmore, -, -, -⟩ := texts_of_watched hbase hocc hm.watched
  have hcontent : r.data.daemon.world.files.content i
      = s₀.data.world.files.content i ++ more := by rw [hm.world_eq, hmore]
  refine ⟨more, hcontent, (settles_of_tailsAt hk hdir hbase hr hcreated).along
    (fun t => t.point ≠ .installed ∧
      (∃ actions, Run (· = s₀) (LogStep path k Stays conffile capacity) actions t ∧
        .generated ∉ actions) ∧
      (t.point ≠ .exited → t.data.world.files.content = r.data.daemon.world.files.content))
    ⟨hcreated, ⟨actions, h, hgenerated⟩, fun _ => rfl⟩ ?_ ?_⟩
  · rintro t t' ⟨hcreated, ⟨actions, hrun, hgenerated⟩, hsame⟩ hsettled
      ⟨a, ha, ⟨hstep, hlog⟩, hshows⟩
    obtain ⟨-, q, -, -, -, rfl, hq⟩ := tailsAt_of_run hdir hstart hrun
    obtain ⟨q', hstep', rfl⟩ := records_body.step hstep
    obtain ⟨hcreated', hnears⟩ := nears_step hk hbase hq hcreated ha hstep' hlog hshows
    refine ⟨hcreated', ⟨actions ++ [a], .next hrun ⟨hstep, hlog.mono fun _ => False.elim⟩, ?_⟩, ?_⟩
    · simpa [hgenerated] using ha.symm
    · intro hrunning'
      have hkept := (hnears.resolve_left hrunning').content
      exact hkept.trans (hsame fun hpoint => hsettled (.inl hpoint))
  · rintro t ⟨hcreated, ⟨actions, hrun, hgenerated⟩, hsame⟩ hsettled
    by_cases hexited : t.point = .exited
    · exact .inl hexited
    obtain ⟨hqueue, -⟩ := hsettled.resolve_left hexited
    have hfree : SignalFree s₀ :=
      ⟨hpending, hstart.installed.pipe, by rw [hstart.installed.point]; rfl⟩
    obtain ⟨-, hreload⟩ :=
      signalFree_of_run hfree (hrun.mono fun _ _ _ => And.left) hgenerated
    obtain ⟨m', hwatched, hbatch, hworld, hcalls⟩ :=
      calls_iff_texts hdir hstart hclock hrun hcreated hexited hreload
    obtain ⟨more', n', hmore', -, hall, hpieces⟩ := texts_of_watched hbase hocc hwatched
    have hlength : n' = more'.length := by
      refine hall ?_
      rw [coming, hbatch, ← hworld]
      exact hqueue
    have hmore_eq : more' = more := by
      have hboth := congrFun (hsame hexited) i
      rw [hworld, hmore', hcontent] at hboth
      exact List.append_cancel_left hboth
    rw [hpieces, hlength, List.take_length, hmore_eq] at hcalls
    exact .inr hcalls

end

/-! ### Two lines -/

/-- The append made one event. -/
theorem queue_twoLines :
    letI := wholeLine
    twoLines.world.inotify.queue ≠ [] := by decide +kernel

/-- The two lines, before the daemon has read them. -/
theorem daemon_settles_twoLines :
    letI := wholeLine
    twoLines.world.inotify.queue ≠ [] ∧
      Inevitably (Proceeds (lit "/log") 1 (lit "blockad.conf") 65536) Settled
        ⟨.top, false, 0, twoLines⟩ := by
  let _ := wholeLine
  have hrun := (@run_changed_twoLines (fun _ => True) trivial).of_init fun s hs =>
    hs ▸ logStart_wholeLineDaemon
  exact ⟨queue_twoLines, @daemon_settles wholeLine (lit "/log") (lit "blockad.conf") 1 65536
    [.created, .changed] _ (by decide) (by decide) (by decide) hrun nofun⟩

/-- Two lines are appended, and nothing else happens. -/
theorem blocked_in_the_end_twoLines :
    letI := wholeLine
    twoLines.world.inotify.queue ≠ [] ∧
      ∃ more,
        twoLines.world.files.content 0 = wholeLineDaemon.world.files.content 0 ++ more ∧
          Inevitably (Proceeds (lit "/log") 1 (lit "blockad.conf") 65536) (fun t =>
            t.point = .exited ∨ ∀ a, a ∈ t.data.store.blockCalls ↔
              ∃ before d, before ++ [d] <+: detectionsAt wholeLineDaemon.store.future
                  (((pieces nl more).map (wholeLineDaemon.config, ·)).flatMap captures) ∧
                d.address = a ∧ TooMany before d) ⟨.top, false, 0, twoLines⟩ := by
  let _ := wholeLine
  exact ⟨queue_twoLines, @blocked_in_the_end wholeLine (lit "/log") (lit "blockad.conf") 1 65536 0
    [.created, .changed] _ _ (by decide) (by decide) (by decide) logStart_wholeLineDaemon rfl rfl
    clock_wholeLineDaemon (run_changed_twoLines trivial) nofun nofun (by simp)⟩

end Blockad.Proofs
