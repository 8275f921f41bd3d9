import Blockad.Proofs.Logfile

/-!
# `Blockad.Proofs.Appends`: a logfile that only grows

While nobody renames, replaces or removes the logfile, the watcher reads one file from its end at
the start of the daemon on, and nothing of it twice. So what is blocked can be read off the file.

* `Steady`: the invariant of the watcher. Its texts are the lines of what was appended, as far as it
  was read.
* `blocked_iff_appended`: `block` was called for an address exactly if the appended lines capture it
  too often. This is about all that was appended whenever no inotify event is queued.
-/

set_option autoImplicit false

namespace Blockad.Proofs

open Bytes Lines Pieces Prog Runs Watcher InotifyWatcher Monitored

/-! ### The watcher -/

/-- A change that leaves the path alone. -/
def Stays : Change → Prop
  | .append _ _ | .createElsewhere _ | .destroy _ | .notice _ => True
  | .create | .renameAway _ | .renameOnto _ _ _ | .unlink _ => False

/-- The texts are the lines of the bytes from `start` to the offset, and the rest is pending. -/
structure SplitFrom (start : Nat) (content : Bytes) (f : File Handle) (line : Bytes)
    (log : List Delivery) : Prop where
  start_le : start ≤ f.offset
  le_length : f.offset ≤ content.length
  texts : log.map Delivery.text = pieces nl (slice content start f.offset)
  line_eq : line = rest nl (slice content start f.offset)

/-- The watcher of a file that stays at the path. The content was `old` when it was made. -/
structure Steady (path : Bytes) (i : Nat) (old : Bytes) (s : Monitored) : Prop where
  calm : ∀ e ∈ coming s, ¬ Concerns path e
  occupant : s.call.world.files.occupant = some i
  grown : old <+: s.call.world.files.content i
  isOpen : ∃ f, s.call.self.fp = some f ∧ f.handle.inode = i ∧
    SplitFrom old.length (s.call.world.files.content i) f s.call.self.line s.call.client

/-- Reading cuts the bytes. -/
theorem Reading.cut_foldl (bytes : Bytes) (r : Reading) :
    (bytes.foldl Reading.byte r).log.map Delivery.text
        = r.log.map Delivery.text ++ (cut nl r.line bytes).1 ∧
      (bytes.foldl Reading.byte r).line = (cut nl r.line bytes).2 := by
  induction bytes generalizing r with
  | nil => simp [cut]
  | cons b bytes ih =>
    obtain ⟨htexts, hline⟩ := ih (r.byte b)
    rw [List.foldl_cons, htexts, hline]
    by_cases hb : b = nl
    · subst hb
      rw [cut_nl, Reading.byte_nl]
      simp
    · rw [cut_of_ne hb, Reading.byte_of_ne hb]
      exact ⟨rfl, rfl⟩

/-- **Reading** goes on to the end of the file. -/
theorem SplitFrom.read {start : Nat} {content : Bytes} {f : File Handle} {line : Bytes}
    {log : List Delivery} (h : SplitFrom start content f line log) :
    let r := (content.drop f.offset).foldl Reading.byte ⟨f, line, log⟩
    SplitFrom start content r.file r.line r.log := by
  obtain ⟨htexts, hline⟩ := Reading.cut_foldl (content.drop f.offset) ⟨f, line, log⟩
  have hoffset : f.offset + (content.drop f.offset).length = content.length := by
    rw [List.length_drop]
    exact Nat.add_sub_cancel' h.le_length
  have hall : slice content start content.length
      = slice content start f.offset ++ content.drop f.offset := by
    rw [slice_length]
    exact (slice_append_drop h.start_le h.le_length).symm
  have hcut : cut nl line (content.drop f.offset)
      = cut nl (rest nl (slice content start f.offset)) (content.drop f.offset) := by
    rw [h.line_eq]
  dsimp only at htexts hline ⊢
  rw [hcut] at htexts hline
  refine ⟨?_, ?_, ?_, ?_⟩
  · rw [Reading.file_foldl]
    exact h.start_le.trans (Nat.le_add_right _ _)
  · rw [Reading.file_foldl]
    exact hoffset.le
  · rw [Reading.file_foldl, htexts, h.texts]
    dsimp only
    rw [hoffset, hall]
    unfold pieces
    rw [cut_append]
    rfl
  · rw [Reading.file_foldl, hline]
    dsimp only
    rw [hoffset, hall]
    unfold rest
    rw [cut_append]

/-- What is appended changes nothing yet. -/
theorem SplitFrom.append {start : Nat} {content : Bytes} {f : File Handle} {line : Bytes}
    {log : List Delivery} (h : SplitFrom start content f line log) (more : Bytes) :
    SplitFrom start (content ++ more) f line log where
  start_le := h.start_le
  le_length := h.le_length.trans (by simp)
  texts := by
    rw [slice_append h.le_length]
    exact h.texts
  line_eq := by
    rw [slice_append h.le_length]
    exact h.line_eq

section
variable {path old : Bytes} {i : Nat}

/-- No event about the path is queued. -/
theorem calm_change {fs : Files} {c : Change} (n : Notifier)
    (hbase : cstr (getBaseName path) ≠ []) (hstays : Stays c)
    (hallows : fs.Allows (cstr (getBaseName path)) c) :
    Adds (fun e => ¬ Concerns path e) n (n.change fs (cstr (getBaseName path)) c) := by
  have hself {wd : Int} {mask : EventKind} : ¬ Concerns path ⟨wd, mask, []⟩ :=
    fun hconcerns => hbase hconcerns.2.symm
  cases c with
  | append j bytes => exact .notifySelf fun _ _ _ => hself
  | createElsewhere bytes => exact .refl n
  | destroy j => exact .destroy fun _ _ _ _ => hself
  | notice event => exact .notify fun hconcerns => hallows.2 hconcerns.2
  | create => exact hstays.elim
  | renameAway dest => exact hstays.elim
  | renameOnto j source early => exact hstays.elim
  | unlink early => exact hstays.elim

/-- A change that leaves the file alone leaves it at the path. -/
theorem occupant_change {fs : Files} {c : Change} (hstays : Stays c) :
    (fs.change c).occupant = fs.occupant := by
  cases c with
  | create => exact hstays.elim
  | renameAway dest => exact hstays.elim
  | renameOnto j source early => exact hstays.elim
  | unlink early => exact hstays.elim
  | _ => rfl

/-- Opening a file makes no event. -/
@[simp] theorem queue_reopen {α : Type} (c : Call Handle Inotify α Filesystem) :
    (reopen c).world.inotify.queue = c.world.inotify.queue := by
  unfold reopen
  split
  · unfold Notifier.addWatch
    dsimp only
    split <;> rfl
  · rfl

/-- A new watcher is at the end of the file that is there. -/
theorem steady_of_constructed {s : Monitored} {first : Files} (h : Constructed path s)
    (hfirst : s.call.world.files = first) (hocc : first.occupant = some i) :
    Steady path i (first.content i) s := by
  obtain ⟨fs, hfs, -, hbatch, hclient, hworld, hself⟩ := constructed_cases h
  have hfiles : fs.files = first := by
    rw [← hfirst, hworld, files_reopen]
    rfl
  subst hfiles
  have hfp : s.call.self.fp = some ⟨fs.files.handle i, (fs.files.content i).length⟩ := by
    have hopened := fp_reopen (c := unopened path fs) rfl
    rw [hself]
    dsimp only
    rw [hopened]
    show Option.map (atEnd fs) (fs.files.occupant.map _) = _
    rw [hocc]
    rfl
  have hline : s.call.self.line = [] := by
    rw [hself]
    exact line_reopen _
  have hcoming : coming s = [] := by
    rw [coming, hbatch, hworld, queue_reopen]
    show [] ++ fs.inotify.queue = []
    rw [hfs.inotify]
    rfl
  refine ⟨by simp [hcoming], hfirst ▸ hocc, hfirst ▸ List.prefix_refl _, _, hfp, rfl, ?_⟩
  rw [hclient, hline, hfirst]
  exact ⟨le_rfl, le_rfl, by simp, by simp⟩

/-- **The step lemma.** -/
theorem steady_step {s s' : Monitored} {a : Action} (hbase : cstr (getBaseName path) ≠ [])
    (halert : Alert path s.call (coming s)) (hs : Steady path i old s)
    (h : Guarded (Transition path) (OnlyChanges Stays) s a s') : Steady path i old s' := by
  obtain ⟨hcalm, hocc, hgrown, f, hfp, hinode, hsplit⟩ := hs
  obtain ⟨hstays, h⟩ := h
  cases h with
  | @changed c hallows =>
    obtain ⟨more, hmore⟩ := (placed_change halert.honest.placed hallows).2.grows i
      (halert.honest.placed.occupant_lt i hocc)
    refine ⟨?_, (occupant_change hstays).trans hocc, ?_, f, hfp, hinode, ?_⟩
    · intro e he
      rcases List.mem_append.mp he with he | he
      · exact hcalm e (List.mem_append_left _ he)
      · rcases (calm_change _ hbase hstays hallows).mem_cases he with he | he
        · exact hcalm e (List.mem_append_right _ he)
        · exact he
    · show old <+: (s.call.world.files.change c).content i
      rw [hmore]
      exact hgrown.trans (List.prefix_append _ _)
    · show SplitFrom old.length ((s.call.world.files.change c).content i) f _ _
      rw [hmore]
      exact hsplit.append more
  | @read k hbatch hpos hle =>
    refine ⟨?_, hocc, hgrown, f, hfp, hinode, hsplit⟩
    intro e he
    rw [coming, List.take_append_drop] at he
    exact hcalm e (List.mem_append_right _ he)
  | @handled event batch call hbatch hrun =>
    rw [coming, hbatch, List.cons_append] at halert hcalm
    rw [handleEvent_eq halert.wired halert.toListening.open_of_fileWd] at hrun
    cases hrun
    have hquiet : ∀ e ∈ batch ++ s.call.world.inotify.queue, ¬ Concerns path e :=
      fun e he => hcalm e (List.mem_cons_of_mem _ he)
    unfold respond
    by_cases hwd : event.wd = s.call.self.own.fileWd
    · have hmask : ¬ (event.mask = .moveSelf ∨ event.mask = .deleteSelf) := by
        intro hmask
        -- The file would have left the path, and an event about that would follow.
        obtain ⟨e, he, hconcerns⟩ := halert.leaving event List.mem_cons_self ⟨hwd, hmask⟩
        exact hcalm e he hconcerns
      rw [if_pos hwd, if_neg hmask]
      subst hinode
      refine ⟨?_, by simpa using hocc, by simpa using hgrown, ?_⟩
      · rw [coming, world_readAll]
        exact hquiet
      · simp only [world_readAll]
        unfold readAll
        rw [hfp]
        exact ⟨_, rfl, by rw [Reading.file_foldl], hsplit.read⟩
    · have habout : ¬ aboutName s.call.self.own event = true := by
        rw [halert.toListening.aboutName_iff hbase]
        exact hcalm event List.mem_cons_self
      rw [if_neg hwd, if_neg habout]
      exact ⟨hquiet, hocc, hgrown, f, hfp, hinode, hsplit⟩

/-- The run lemma. -/
theorem steady_of_watched {m : Monitored} {first : Files} (hbase : cstr (getBaseName path) ≠ [])
    (hocc : first.occupant = some i) (h : Watched path first Stays m) :
    Alert path m.call (coming m) ∧ Steady path i (first.content i) m := by
  have hinit (s : Monitored) (hs : Constructed path s ∧ s.call.world.files = first) :
      Alert path s.call (coming s) ∧ Steady path i (first.content i) s :=
    ⟨alert_of_constructed hs.1, steady_of_constructed hs.1 hs.2 hocc⟩
  exact h.invariant hinit fun s a s' hs hstep =>
    ⟨alert_step hbase hs.1 hstep.2, steady_step hbase hs.1 hs.2 hstep⟩

/-- **The texts of a file that stays**: the lines of what was appended, of all of it if no event is
to come. -/
theorem texts_of_watched {m : Monitored} {first : Files} (hbase : cstr (getBaseName path) ≠ [])
    (hocc : first.occupant = some i) (h : Watched path first Stays m) :
    ∃ more n, m.call.world.files.content i = first.content i ++ more ∧ n ≤ more.length ∧
      (coming m = [] → n = more.length) ∧
      m.call.client.map Delivery.text = pieces nl (more.take n) := by
  obtain ⟨halert, hsteady⟩ := steady_of_watched hbase hocc h
  obtain ⟨-, hocc', ⟨more, hmore⟩, f, hfp, rfl, hsplit⟩ := hsteady
  have hslice : slice (m.call.world.files.content f.handle.inode)
      (first.content f.handle.inode).length f.offset
        = more.take (f.offset - (first.content f.handle.inode).length) := by
    rw [slice, List.drop_take, ← hmore, List.drop_left]
  refine ⟨more, f.offset - (first.content f.handle.inode).length, hmore.symm, ?_, ?_, ?_⟩
  · have hle := hsplit.le_length
    rw [← hmore, List.length_append] at hle
    omega
  · intro hcoming
    have huptodate := (hcoming ▸ halert).upToDate_of_nil
    rw [UpToDate, hocc'] at huptodate
    obtain ⟨f', hfp', -, hoffset, -⟩ := huptodate
    obtain rfl : f = f' := Option.some.inj (hfp.symm.trans hfp')
    rw [hoffset, ← hmore, List.length_append]
    omega
  · rw [hsplit.texts, hslice]

end

/-! ### The daemon -/

section
variable [Libc]

section
variable {H W : Type} {os : Syscalls H W} {conffile : Bytes} {capacity : Nat} {cf : ConfFile}

/-- The configuration of the daemon and of its lines. -/
structure OneConfig (cf : ConfFile) (r : Recorder H W) : Prop where
  config : r.daemon.config = cf
  lines : ∀ line ∈ r.lines, line.1 = cf

/-- The configuration is that of the start until there is a reload. -/
def OneConfigAt (cf : ConfFile) (actions : List LoopAction) (r : MainLoop (Recorder H W)) : Prop :=
  .reloaded ∉ actions → r.point ≠ .exited → OneConfig cf r.data

/-- **Without a reload** there is one configuration. -/
theorem oneConfigAt_of_run {r₀ r : MainLoop (Recorder H W)} {actions : List LoopAction}
    (hstart : OneConfig cf r₀.data)
    (h : Run (· = r₀) (MainLoop.Step capacity (Recorder.body os conffile)) actions r) :
    OneConfigAt cf actions r := by
  intro hreload _
  have hne : ∀ a ∈ actions, a ≠ .reloaded := fun a ha heq => hreload (heq ▸ ha)
  have hrun : Run (· = r₀) (fun r a r' =>
      MainLoop.Step capacity (Recorder.body os conffile) r a r' ∧
        (a = .reloaded → r'.data.daemon.config = cf)) actions r :=
    (h.guarded hne).mono fun _ _ _ hstep => ⟨hstep.2, fun heq => absurd heq hstep.1⟩
  have hconfigs : Configs (· = cf) r₀.data := ⟨hstart.config, hstart.lines⟩
  obtain ⟨hconfig, hlines⟩ := configs_of_run hconfigs hrun
  exact ⟨hconfig, hlines⟩

end

/-- **The texts and the calls of `block`.** -/
theorem calls_iff_texts {path conffile : Bytes} {k capacity : Nat} {allowed : Change → Prop}
    {actions : List LoopAction} {s₀ s : MainLoop (Daemon Handle Filesystem)}
    (hdir : cstr path ≠ cstr (getDirName path)) (hstart : LogStart path conffile s₀)
    (hclock : ∀ n, (s₀.data.store.future n).now ≤ (s₀.data.store.future (n + 1)).now)
    (h : Run (· = s₀) (LogStep path k allowed conffile capacity) actions s)
    (hcreated : s.point ≠ .installed) (hrunning : s.point ≠ .exited)
    (hreload : .reloaded ∉ actions) :
    ∃ m, Watched path s₀.data.world.files allowed m ∧ m.batch = [] ∧
      s.data.world = m.call.world ∧
      ∀ a, a ∈ s.data.store.blockCalls ↔
        ∃ before d, before ++ [d] <+: detectionsAt s₀.data.store.future
            (((m.call.client.map Delivery.text).map (s₀.data.config, ·)).flatMap captures) ∧
          d.address = a ∧ TooMany before d := by
  obtain ⟨r₀, r, hr₀, rfl, hr, rfl, htails⟩ := tailsAt_of_run hdir hstart h
  obtain ⟨m, hwatched, hbatch, -, hworld, htexts⟩ := htails.after hcreated hrunning
  have hconfig : OneConfig r₀.data.daemon.config r₀.data := ⟨rfl, by simp [hr₀.lines]⟩
  obtain ⟨-, hlines⟩ := oneConfigAt_of_run hconfig hr hreload hrunning
  have hsame : r.data.lines
      = (m.call.client.map Delivery.text).map (r₀.data.daemon.config, ·) := by
    have hpairs : r.data.lines.map ((r₀.data.daemon.config, ·) ∘ Prod.snd) = r.data.lines.map id :=
      List.map_congr_left fun line hline => Prod.ext (hlines line hline).symm rfl
    rw [htexts, List.map_map, hpairs, List.map_id]
  have hinterval : r.data.lines.Pairwise fun entry later =>
      later.1.rateInterval ≤ entry.1.rateInterval := by
    refine List.pairwise_of_forall_mem_list fun entry hentry later hlater => ?_
    rw [hlines entry hentry, hlines later hlater]
  have hevident : Evident r₀.data.daemon.store r.data := (recordedAt_of_run hr₀ hr).2 hrunning
  refine ⟨m, hwatched, hbatch, hworld, fun a => ?_⟩
  have hcalls := calls_iff_of_evident hevident hclock hinterval a
  rw [hsame] at hcalls
  exact hcalls

/-- **The daemon blocks exactly on what was appended.** The logfile stays at its path from the start
of the daemon on, the clock does not go back, and there is no reload. Then `block` has been called
for an address exactly if, at one of its captures in the lines that were appended, more of them
counted within the interval than the configuration allows. Some of what was appended may not be read
yet, but none if no inotify event is queued. -/
theorem blocked_iff_appended {path conffile : Bytes} {k capacity i : Nat}
    {actions : List LoopAction} {s₀ s : MainLoop (Daemon Handle Filesystem)}
    (hdir : cstr path ≠ cstr (getDirName path)) (hbase : cstr (getBaseName path) ≠ [])
    (hstart : LogStart path conffile s₀) (hocc : s₀.data.world.files.occupant = some i)
    (hclock : ∀ n, (s₀.data.store.future n).now ≤ (s₀.data.store.future (n + 1)).now)
    (h : Run (· = s₀) (LogStep path k Stays conffile capacity) actions s)
    (hcreated : s.point ≠ .installed) (hrunning : s.point ≠ .exited)
    (hreload : .reloaded ∉ actions) :
    ∃ more n,
      s.data.world.files.content i = s₀.data.world.files.content i ++ more ∧ n ≤ more.length ∧
      (s.data.world.inotify.queue = [] → n = more.length) ∧
      ∀ a, a ∈ s.data.store.blockCalls ↔
        ∃ before d, before ++ [d] <+: detectionsAt s₀.data.store.future
            (((pieces nl (more.take n)).map (s₀.data.config, ·)).flatMap captures) ∧
          d.address = a ∧ TooMany before d := by
  obtain ⟨m, hwatched, hbatch, hworld, hcalls⟩ :=
    calls_iff_texts hdir hstart hclock h hcreated hrunning hreload
  obtain ⟨more, n, hmore, hn, hall, hpieces⟩ := texts_of_watched hbase hocc hwatched
  rw [hpieces] at hcalls
  refine ⟨more, n, by rw [hworld, hmore], hn, fun hqueue => hall ?_, hcalls⟩
  rw [coming, hbatch, ← hworld]
  exact hqueue

end

/-- All events were read. -/
theorem queue_twoLinesRead :
    letI := wholeLine
    twoLinesRead.world.inotify.queue = [] := by decide +kernel

/-- Two lines, and an address that is in both of them. -/
theorem blocked_iff_appended_twoLinesRead :
    letI := wholeLine
    ∃ more,
      twoLinesRead.world.files.content 0 = wholeLineDaemon.world.files.content 0 ++ more ∧
        ∃ before d, before ++ [d] <+: detectionsAt wholeLineDaemon.store.future
            (((pieces nl (more.take more.length)).map (wholeLineDaemon.config, ·)).flatMap
              captures) ∧
          d.address = ⟨mapped4 #v[192, 0, 2, 1]⟩ ∧ TooMany before d := by
  let _ := wholeLine
  obtain ⟨more, n, hmore, -, hall, hcalls⟩ :=
    @blocked_iff_appended wholeLine (lit "/log") (lit "blockad.conf") 1 65536 0 readActions _ _
      (by decide) (by decide) logStart_wholeLineDaemon rfl clock_wholeLineDaemon
      (run_logged_twoLinesRead trivial) nofun nofun (by simp [readActions])
  dsimp only at hmore hall hcalls
  have hcalled : ⟨mapped4 #v[192, 0, 2, 1]⟩ ∈ twoLinesRead.store.blockCalls := by
    rw [blockCalls_twoLinesRead]
    exact List.mem_cons_self
  have hread := hall queue_twoLinesRead
  subst hread
  exact ⟨more, hmore, (hcalls _).mp hcalled⟩

end Blockad.Proofs
