import Blockad.Lib.Inevitably
import Blockad.Proofs.Provenance
import Mathlib.Algebra.GroupWithZero.Nat

/-!
# `Blockad.Proofs.Wakeups`: an `InotifyWatcher` is always woken up

Two defects of the watcher are about events that come late. What it does not have is an event that
is missing: as long as there is something left to read, or another file at the path, an event is
on its way that makes `select` return.

* `handleEvent_eq`: what the watcher does with an event, in every case.
* `Alert`: the invariant. The open file is watched, and a file that has left the path or has more
  to read is announced.
* `up_to_date_or_woken`: a watcher without events to come is up to date.
* `settles`: when the changes stop, every run of `work` comes to that.
-/

set_option autoImplicit false

namespace Blockad.Proofs

open Bytes Inevitability Lines Prog Runs Watcher InotifyWatcher Monitored

/-! ### One event -/

/-- What the watcher does with an event. -/
def respond (event : InotifyEvent) (c : Site) : Site :=
  if event.wd = c.self.own.fileWd then
    if event.mask = .moveSelf ∨ event.mask = .deleteSelf then shut (readAll c) else readAll c
  else if aboutName c.self.own event then readAll (reopen (shut c))
  else c

/-- **One event.** No call fails, if a file is open wherever one is read. -/
theorem handleEvent_eq {path : Bytes} {k : Nat} {event : InotifyEvent} {c : Site}
    (hc : Wired path c) (hopen : event.wd = c.self.own.fileWd → c.self.fp.isSome) :
    handleEvent (kernel path k) record event c = .ok () (respond event c) := by
  show (fileEvent (kernel path k) record event >>= fun _ =>
    dirEvent (kernel path k) record event) c = _
  unfold respond
  by_cases hwd : event.wd = c.self.own.fileWd
  · have hfile : fileEvent (kernel path k) record event c = .ok ()
        (if event.mask = .moveSelf ∨ event.mask = .deleteSelf then shut (readAll c)
          else readAll c) := by
      rw [fileEvent_eq, if_pos (by simpa using hwd), bind_of_ok (readLines_eq _ (hopen hwd))]
      by_cases hmask : event.mask = .moveSelf ∨ event.mask = .deleteSelf
      · rw [if_pos (by simpa using hmask), if_pos hmask, closeFile_eq]
      · rw [if_neg (by simpa using hmask), if_neg hmask]
        rfl
    -- It is no event of the directory then.
    have hne : event.wd ≠ dirWd := hwd ▸ hc.fileWd_ne
    rw [bind_of_ok hfile, if_pos hwd, dirEvent_eq, if_neg]
    split <;> simp [aboutName, hc.dirWd_eq, hne]
  · have hfile : fileEvent (kernel path k) record event c = .ok () c := by
      rw [fileEvent_eq, if_neg (by simpa using hwd)]
    rw [bind_of_ok hfile, if_neg hwd, dirEvent_eq]
    by_cases habout : aboutName c.self.own event = true
    · rw [if_pos habout, if_pos habout, bind_of_ok (closeFile_eq _),
        bind_of_ok (openFile_eq (by simp [hc.path_eq]) hc.path_ne)]
      show (if (reopen (shut c)).self.fp.isSome then _ else _ : Prog _ _ _ _ _) _ = _
      by_cases hsome : (reopen (shut c)).self.fp.isSome
      · rw [if_pos hsome, readLines_eq _ hsome]
      · have hnone : (reopen (shut c)).self.fp = none := by simpa using hsome
        rw [if_neg hsome]
        simp [readAll, hnone]
        rfl
    · rw [if_neg habout, if_neg habout]

/-! ### The queue -/

/-- The second notifier has some more events. -/
def Adds (allowed : InotifyEvent → Prop) (n n' : Notifier) : Prop :=
  ∃ more, n'.queue = n.queue ++ more ∧ ∀ e ∈ more, allowed e

namespace Adds

variable {allowed : InotifyEvent → Prop} {n n' n'' : Notifier}

/-- A step that adds no event. -/
theorem refl (n : Notifier) : Adds allowed n n := ⟨[], by simp, by simp⟩

/-- Two steps after each other. -/
theorem trans (h : Adds allowed n n') (h' : Adds allowed n' n'') : Adds allowed n n'' := by
  obtain ⟨more, hmore, hall⟩ := h
  obtain ⟨more', hmore', hall'⟩ := h'
  refine ⟨more ++ more', by rw [hmore', hmore, List.append_assoc], ?_⟩
  intro e he
  rcases List.mem_append.mp he with he | he
  · exact hall e he
  · exact hall' e he

/-- The events that were there before stay. -/
theorem mem (h : Adds allowed n n') {e : InotifyEvent} (he : e ∈ n.queue) : e ∈ n'.queue := by
  obtain ⟨more, hmore, -⟩ := h
  rw [hmore]
  exact List.mem_append_left _ he

/-- An event was there before, or it is allowed. -/
theorem mem_cases (h : Adds allowed n n') {e : InotifyEvent} (he : e ∈ n'.queue) :
    e ∈ n.queue ∨ allowed e := by
  obtain ⟨more, hmore, hall⟩ := h
  rw [hmore] at he
  exact (List.mem_append.mp he).imp_right (hall e)

/-- One event that is allowed. -/
theorem notify {event : InotifyEvent} (h : allowed event) : Adds allowed n (n.notify event) := by
  unfold Notifier.notify
  split
  · exact refl n
  · exact ⟨[event], rfl, by simpa using h⟩

/-- The event is in the queue then, also if it repeats the last one. -/
theorem mem_notify (n : Notifier) (event : InotifyEvent) : event ∈ (n.notify event).queue := by
  unfold Notifier.notify
  split
  · exact List.mem_of_getLast? ‹_›
  · simp

/-- The events of a file have the descriptors of its watches. -/
theorem notifySelf {i : Nat} {mask : EventKind}
    (h : ∀ watch ∈ n.watches, watch.2 = i → allowed ⟨watch.1, mask, []⟩) :
    Adds allowed n (n.notifySelf i mask) := by
  unfold Notifier.notifySelf
  have hall : ∀ watch ∈ n.watches.filter (·.2 == i), allowed ⟨watch.1, mask, []⟩ := by
    intro watch hwatch
    obtain ⟨hmem, hi⟩ := List.mem_filter.mp hwatch
    exact h watch hmem (by simpa using hi)
  generalize n.watches.filter (·.2 == i) = watches at hall
  induction watches generalizing n with
  | nil => exact refl n
  | cons watch watches ih =>
    have hfirst : Adds allowed n (n.notify ⟨watch.1, mask, []⟩) :=
      notify (hall watch List.mem_cons_self)
    refine hfirst.trans (ih ?_ fun w hw => hall w (List.mem_cons_of_mem _ hw))
    simpa using h

/-- The watch of a file gets the event. -/
theorem mem_notifySelf {i : Nat} {wd : Int} (hwatch : (wd, i) ∈ n.watches) (mask : EventKind) :
    ⟨wd, mask, []⟩ ∈ (n.notifySelf i mask).queue := by
  unfold Notifier.notifySelf
  have hmem : (wd, i) ∈ n.watches.filter (·.2 == i) := List.mem_filter.mpr ⟨hwatch, by simp⟩
  clear hwatch
  generalize n.watches.filter (·.2 == i) = watches at hmem
  induction watches generalizing n with
  | nil => cases hmem
  | cons watch watches ih =>
    rcases List.mem_cons.mp hmem with rfl | hmem
    · -- What follows leaves the event where it is.
      have hrest : ∀ (ws : List (Int × Nat)) (n : Notifier), Adds (fun _ => True) n
          (ws.foldl (fun n watch => n.notify ⟨watch.1, mask, []⟩) n) := by
        intro ws
        induction ws with
        | nil => exact refl
        | cons w ws ih => exact fun n => (notify trivial).trans (ih _)
      exact (hrest watches _).mem (mem_notify n _)
    · exact ih hmem

/-- The events of a file that goes away, if they are allowed for all of its watches. -/
theorem destroy {i : Nat} (h : ∀ watch ∈ n.watches, watch.2 = i → ∀ mask,
    allowed ⟨watch.1, mask, []⟩) : Adds allowed n (n.destroy i) := by
  have hfirst : Adds allowed n (n.notifySelf i .deleteSelf) :=
    notifySelf fun watch hwatch hi => h watch hwatch hi _
  have hsecond : Adds allowed (n.notifySelf i .deleteSelf)
      ((n.notifySelf i .deleteSelf).notifySelf i .ignored) := by
    refine notifySelf fun watch hwatch hi => h watch ?_ hi _
    simpa using hwatch
  exact hfirst.trans hsecond

/-- A step that is only taken for a file that exists. -/
theorem elim {α : Type} {o : Option α} {f : α → Notifier} (h : ∀ a, Adds allowed n (f a)) :
    Adds allowed n (o.elim n f) := by
  cases o with
  | none => exact refl n
  | some a => exact h a

/-- A step that is only taken under a condition. -/
theorem ite {b : Bool} (h : Adds allowed n n') : Adds allowed n (if b then n' else n) := by
  split
  · exact h
  · exact refl n

/-- More events may be allowed. -/
theorem mono {allowed' : InotifyEvent → Prop} (h : Adds allowed n n')
    (himp : ∀ e, allowed e → allowed' e) : Adds allowed' n n' := by
  obtain ⟨more, hmore, hall⟩ := h
  exact ⟨more, hmore, fun e he => himp e (hall e he)⟩

end Adds

/-- The event is of the directory, or of a watched file. -/
def OfWatched (n : Notifier) (e : InotifyEvent) : Prop :=
  e.wd = dirWd ∨ ∃ watch ∈ n.watches, e.wd = watch.1

/-- **What a change queues.** -/
theorem adds_change {fs : Files} {name : Bytes} {c : Change} (n : Notifier)
    (hallows : fs.Allows name c) : Adds (OfWatched n) n (n.change fs name c) := by
  have hdir {n' : Notifier} {mask : EventKind} {name : Bytes} :
      Adds (OfWatched n) n' (n'.notify ⟨dirWd, mask, name⟩) := .notify (.inl rfl)
  have hself {n' : Notifier} (h : FewerWatches n n') (i : Nat) (mask : EventKind) :
      Adds (OfWatched n) n' (n'.notifySelf i mask) :=
    .notifySelf fun watch hwatch _ => .inr ⟨watch, h.watches hwatch, rfl⟩
  have hdestroy (i : Nat) : Adds (OfWatched n) n (n.destroy i) :=
    .destroy fun watch hwatch _ _ => .inr ⟨watch, hwatch, rfl⟩
  cases c with
  | append i _ => exact hself (.of_eq rfl rfl) i _
  | createElsewhere _ => exact .refl n
  | create => exact hdir
  | renameAway dest =>
    refine (hdir.trans (.elim fun _ => hdir)).trans (.elim fun _ => hself ?_ _ _)
    exact (FewerWatches.notify _).trans (.elim fun _ => .notify _)
  | renameOnto i source early =>
    refine (((Adds.ite (.elim hdestroy)).trans (.elim fun _ => hdir)).trans hdir).trans
      (hself ?_ _ _)
    exact ((FewerWatches.ite (.elim fun _ => .destroy _)).trans (.elim fun _ => .notify _)).trans
      (.notify _)
  | unlink early => exact (Adds.ite (.elim hdestroy)).trans hdir
  | destroy i => exact hdestroy i
  | notice event => exact .notify (.inl hallows.1)

/-! ### Announcements -/

/-- The event is one of the directory, about the name of the watched file. -/
def Concerns (path : Bytes) (e : InotifyEvent) : Prop :=
  e.wd = dirWd ∧ e.name = cstr (getBaseName path)

/-- One of the events makes the watcher open the path again. -/
def Reopens (path : Bytes) (events : List InotifyEvent) : Prop := ∃ e ∈ events, Concerns path e

/-- A change of the file at the path is announced by the directory. -/
theorem reopens_change {path : Bytes} {fs : Files} {c : Change} (n : Notifier)
    (hc : c = .create ∨ (∃ dest, c = .renameAway dest) ∨
      (∃ i source early, c = .renameOnto i source early) ∨ ∃ early, c = .unlink early) :
    Reopens path (n.change fs (cstr (getBaseName path)) c).queue := by
  have hself {n' : Notifier} (i : Nat) (mask : EventKind) :
      Adds (fun _ => True) n' (n'.notifySelf i mask) := .notifySelf fun _ _ _ => trivial
  have hnotify (mask : EventKind) (n : Notifier) :
      Reopens path (n.notify ⟨dirWd, mask, cstr (getBaseName path)⟩).queue :=
    ⟨_, Adds.mem_notify n _, rfl, rfl⟩
  rcases hc with rfl | ⟨dest, rfl⟩ | ⟨i, source, early, rfl⟩ | ⟨early, rfl⟩
  · exact hnotify .create n
  · obtain ⟨e, he, habout⟩ := hnotify .movedFrom n
    refine ⟨e, Adds.mem (Adds.trans (.elim fun _ => ?_) (.elim fun _ => hself _ _)) he, habout⟩
    exact .notify trivial
  · obtain ⟨e, he, habout⟩ := hnotify .movedTo _
    exact ⟨e, (hself i .moveSelf).mem he, habout⟩
  · exact hnotify .delete _

/-! ### The watch of the open file -/

/-- The open file has the only watch there is, if it was not destroyed. -/
structure SoleWatch (c : Site) : Prop where
  idle : c.self.fp = none → c.self.own.fileWd = -1 ∧ c.world.inotify.watches = []
  isOpen : ∀ f, c.self.fp = some f →
    dirWd < c.self.own.fileWd ∧ c.self.own.fileWd < c.world.inotify.nextWd ∧
      ∀ watch ∈ c.world.inotify.watches, watch = (c.self.own.fileWd, f.handle.inode)

/-- Every watch is that of the open file. -/
theorem SoleWatch.of_mem {c : Site} (h : SoleWatch c) {watch : Int × Nat}
    (hwatch : watch ∈ c.world.inotify.watches) :
    ∃ f, c.self.fp = some f ∧ watch = (c.self.own.fileWd, f.handle.inode) := by
  cases hfp : c.self.fp with
  | none => simp [(h.idle hfp).2] at hwatch
  | some f => exact ⟨f, rfl, (h.isOpen f hfp).2.2 watch hwatch⟩

/-- What the open file and its descriptor leave to say. -/
theorem SoleWatch.fewer {c c' : Site} (h : SoleWatch c) (hself : c'.self = c.self)
    (hfewer : FewerWatches c.world.inotify c'.world.inotify) : SoleWatch c' := by
  constructor
  · intro hfp
    obtain ⟨hwd, hwatches⟩ := h.idle (hself ▸ hfp)
    refine ⟨hself ▸ hwd, List.eq_nil_of_subset_nil ?_⟩
    exact hwatches ▸ hfewer.watches
  · intro f hfp
    obtain ⟨hlt, hnext, hall⟩ := h.isOpen f (hself ▸ hfp)
    rw [hself, hfewer.nextWd]
    exact ⟨hlt, hnext, fun watch hwatch => hall watch (hfewer.watches hwatch)⟩

/-- **Closing** takes the watch away, and the kernel says so. -/
theorem inotify_shut {c : Site} (h : SoleWatch c) :
    (shut c).self.own.fileWd = -1 ∧ (shut c).world.inotify.watches = [] ∧
      (shut c).world.inotify.nextWd = c.world.inotify.nextWd ∧
      ((shut c).world.inotify.queue = c.world.inotify.queue ∨ c.self.fp.isSome ∧
        (shut c).world.inotify.queue
          = c.world.inotify.queue ++ [⟨c.self.own.fileWd, .ignored, []⟩]) := by
  unfold shut
  cases hfp : c.self.fp with
  | none =>
    obtain ⟨hwd, hwatches⟩ := h.idle hfp
    exact ⟨hwd, hwatches, rfl, .inl rfl⟩
  | some f =>
    obtain ⟨hlt, -, hall⟩ := h.isOpen f hfp
    have hpos : c.self.own.fileWd ≥ 0 := Int.le_of_lt (Int.lt_trans (by decide) hlt)
    unfold unwatch
    rw [if_pos hpos]
    unfold Notifier.rmWatch
    dsimp only
    split
    · refine ⟨rfl, ?_, by simp, ?_⟩
      · rw [watches_notify]
        refine List.filter_eq_nil_iff.mpr fun watch hwatch => ?_
        simp [hall watch hwatch]
      · unfold Notifier.notify
        split
        · exact .inl rfl
        · exact .inr ⟨rfl, rfl⟩
    · rename_i hnone
      refine ⟨rfl, ?_, rfl, .inl rfl⟩
      -- The watch went with the inode.
      refine List.eq_nil_iff_forall_not_mem.mpr fun watch hwatch => hnone ?_
      exact List.any_eq_true.mpr ⟨watch, hwatch, by simp [hall watch hwatch]⟩

/-- Closing keeps the name of the file. -/
@[simp] theorem base_shut (c : Site) : (shut c).self.own.base = c.self.own.base := by
  unfold shut unwatch
  split <;> [rfl; (split <;> rfl)]

/-- Opening keeps it too. -/
@[simp] theorem base_reopen {α : Type} (c : Call Handle Inotify α Filesystem) :
    (reopen c).self.own.base = c.self.own.base := by
  unfold reopen; split <;> rfl

/-! ### The invariant -/

/-- A watcher with some events to come. -/
structure Listening (path : Bytes) (c : Site) (events : List InotifyEvent) : Prop where
  wired : Wired path c
  honest : HonestCall c
  base_eq : c.self.own.base = getBaseName path
  watching : SoleWatch c
  past : ∀ e ∈ events, dirWd ≤ e.wd ∧ e.wd < c.world.inotify.nextWd

namespace Listening

variable {path : Bytes} {c : Site} {events batch : List InotifyEvent}

/-- Fewer events to come. -/
theorem mono {events' : List InotifyEvent} (h : Listening path c events)
    (hsub : events' ⊆ events) : Listening path c events' :=
  ⟨h.wired, h.honest, h.base_eq, h.watching, fun e he => h.past e (hsub he)⟩

/-- An event of the file comes to an open one. -/
theorem open_of_fileWd {e : InotifyEvent} (h : Listening path c (e :: events))
    (hwd : e.wd = c.self.own.fileWd) : c.self.fp.isSome := by
  cases hfp : c.self.fp with
  | some f => rfl
  | none =>
    have hle := (h.past e List.mem_cons_self).1
    rw [hwd, (h.watching.idle hfp).1] at hle
    exact absurd hle (by decide)

/-- The test of the code is about the events that concern the path. -/
theorem aboutName_iff (h : Listening path c events) (hbase : cstr (getBaseName path) ≠ [])
    (e : InotifyEvent) : aboutName c.self.own e = true ↔ Concerns path e := by
  unfold aboutName Concerns
  rw [h.wired.dirWd_eq, h.base_eq]
  simp only [Bool.and_eq_true, Bool.not_eq_true', beq_iff_eq, List.isEmpty_eq_false_iff]
  constructor
  · rintro ⟨⟨hwd, -⟩, hname⟩
    exact ⟨hwd, hname⟩
  · rintro ⟨hwd, hname⟩
    exact ⟨⟨hwd, hname ▸ hbase⟩, hname⟩

/-- Reading keeps listening. -/
theorem readAll (h : Listening path c events) : Listening path (readAll c) events := by
  refine ⟨wired_readAll h.wired, honest_readAll h.honest, by simpa using h.base_eq, ?_, ?_⟩
  · unfold Proofs.readAll
    cases hfp : c.self.fp with
    | none => exact h.watching
    | some f =>
      refine ⟨nofun, ?_⟩
      rintro f' ⟨⟩
      rw [Reading.file_foldl]
      exact h.watching.isOpen f hfp
  · simpa using h.past

/-- Closing removes a watch, and keeps listening. -/
theorem shut (h : Listening path c (batch ++ c.world.inotify.queue)) :
    Listening path (shut c) (batch ++ (Proofs.shut c).world.inotify.queue) := by
  obtain ⟨hwd, hwatches, hnext, hqueue⟩ := inotify_shut h.watching
  refine ⟨wired_shut h.wired, honest_shut h.honest, by simpa using h.base_eq,
    ⟨fun _ => ⟨hwd, hwatches⟩, by simp⟩, ?_⟩
  rw [hnext]
  rcases hqueue with hqueue | ⟨hopen, hqueue⟩
  · rw [hqueue]
    exact h.past
  · obtain ⟨f, hfp⟩ := Option.isSome_iff_exists.mp hopen
    obtain ⟨hlt, hltNext, -⟩ := h.watching.isOpen f hfp
    rw [hqueue, ← List.append_assoc]
    intro e he
    rcases List.mem_append.mp he with he | he
    · exact h.past e he
    · rw [List.mem_singleton.mp he]
      exact ⟨Int.le_of_lt hlt, hltNext⟩

/-- A file that is opened gets a descriptor that no event has. -/
theorem reopen (h : Listening path c events) (hfp : c.self.fp = none) :
    Listening path (reopen c) events ∧
      (Proofs.reopen c).world.inotify.queue = c.world.inotify.queue ∧
      (∀ e ∈ events, e.wd ≠ (Proofs.reopen c).self.own.fileWd) ∧
      ∀ f, (Proofs.reopen c).self.fp = some f → c.world.files.occupant = some f.handle.inode ∧
        ((Proofs.reopen c).self.own.fileWd, f.handle.inode)
          ∈ (Proofs.reopen c).world.inotify.watches := by
  have hwired := wired_reopen h.wired
  have hhonest := honest_reopen h.honest
  have hbase : (Proofs.reopen c).self.own.base = getBaseName path := by simpa using h.base_eq
  obtain ⟨hwd, hwatches⟩ := h.watching.idle hfp
  revert hwired hhonest hbase
  unfold Proofs.reopen
  rw [hfp]
  cases hocc : c.world.files.occupant with
  | none =>
    intro hwired hhonest hbase
    refine ⟨h, rfl, ?_, by simp [hfp]⟩
    intro e he
    have hle := (h.past e he).1
    rw [hwd]
    unfold dirWd at hle
    omega
  | some i =>
    have hadd : c.world.inotify.addWatch i = (c.world.inotify.nextWd,
        { c.world.inotify with
          watches := [(c.world.inotify.nextWd, i)], nextWd := c.world.inotify.nextWd + 1 }) := by
      simp [Notifier.addWatch, hwatches]
    dsimp only
    rw [hadd]
    intro hwired hhonest hbase
    refine ⟨⟨hwired, hhonest, hbase, ⟨nofun, ?_⟩, ?_⟩, rfl, ?_, ?_⟩
    · rintro f ⟨⟩
      refine ⟨h.wired.lt_nextWd, Int.lt_succ _, ?_⟩
      simp [Files.handle]
    · intro e he
      obtain ⟨hle, hlt⟩ := h.past e he
      exact ⟨hle, Int.lt_trans hlt (Int.lt_succ _)⟩
    · exact fun e he => Int.ne_of_lt (h.past e he).2
    · rintro f ⟨⟩
      exact ⟨rfl, by simp [Files.handle]⟩

end Listening

/-- The open file is the one at the path. It was read to its end, or one of the events is about
it. -/
structure Current (c : Site) (events : List InotifyEvent) (f : File Handle) : Prop where
  occupant_eq : c.world.files.occupant = some f.handle.inode
  watched : (c.self.own.fileWd, f.handle.inode) ∈ c.world.inotify.watches
  heard : f.offset = (c.world.files.content f.handle.inode).length ∨
    ∃ e ∈ events, e.wd = c.self.own.fileWd

/-- The file is about to be closed. -/
def Leaving (c : Site) (e : InotifyEvent) : Prop :=
  e.wd = c.self.own.fileWd ∧ (e.mask = .moveSelf ∨ e.mask = .deleteSelf)

/-- **The invariant.** -/
structure Alert (path : Bytes) (c : Site) (events : List InotifyEvent) : Prop
    extends Listening path c events where
  leaving : ∀ e ∈ events, Leaving c e → Reopens path events
  upToDate : Reopens path events ∨ (c.self.fp = none ∧ c.world.files.occupant = none) ∨
    ∃ f, c.self.fp = some f ∧ Current c events f

section
variable {path : Bytes} {c : Site} {events batch : List InotifyEvent}

/-- An event that reopens the file is still to come when there are more. -/
theorem Reopens.mono {events' : List InotifyEvent} (h : Reopens path events)
    (hsub : events ⊆ events') : Reopens path events' := by
  obtain ⟨e, he, habout⟩ := h
  exact ⟨e, hsub he, habout⟩

/-- What the queue holds comes after the batch. -/
theorem append_subset (batch : List InotifyEvent) {queue queue' : List InotifyEvent}
    (h : queue ⊆ queue') : batch ++ queue ⊆ batch ++ queue' :=
  List.append_subset.mpr ⟨List.subset_append_left _ _, List.subset_append_of_subset_right _ h⟩

/-- An event about something else does not count. -/
theorem Reopens.tail {e : InotifyEvent} (h : Reopens path (e :: events))
    (he : ¬ Concerns path e) : Reopens path events := by
  obtain ⟨e', he', habout⟩ := h
  rcases List.mem_cons.mp he' with rfl | he'
  · exact absurd habout he
  · exact ⟨e', he', habout⟩

/-- The file at the path stays there, and is still watched. -/
theorem Current.change {name : Bytes} {ch : Change} {f : File Handle}
    (h : Current c (batch ++ c.world.inotify.queue) f)
    (hlt : f.handle.inode < c.world.files.freshInode) (hallows : c.world.files.Allows name ch)
    (hname : (c.world.files.change ch).occupant = c.world.files.occupant)
    (hch : (∃ i bytes, ch = .append i bytes) ∨ (∃ bytes, ch = .createElsewhere bytes) ∨
      (∃ i, ch = .destroy i) ∨ ∃ event, ch = .notice event) :
    Current { c with world := c.world.change name ch }
      (batch ++ (c.world.change name ch).inotify.queue) f := by
  have hqueue : Adds _ c.world.inotify (c.world.change name ch).inotify :=
    adds_change c.world.inotify hallows
  have hheard (hcontent : (c.world.files.change ch).content f.handle.inode
      = c.world.files.content f.handle.inode) :
      f.offset = ((c.world.files.change ch).content f.handle.inode).length ∨
        ∃ e ∈ batch ++ (c.world.change name ch).inotify.queue, e.wd = c.self.own.fileWd := by
    rw [hcontent]
    refine h.heard.imp_right fun ⟨e, he, hwd⟩ => ⟨e, ?_, hwd⟩
    rcases List.mem_append.mp he with he | he
    · exact List.mem_append_left _ he
    · exact List.mem_append_right _ (hqueue.mem he)
  refine ⟨hname.trans h.occupant_eq, ?_, ?_⟩
  · rcases hch with ⟨i, bytes, rfl⟩ | ⟨bytes, rfl⟩ | ⟨i, rfl⟩ | ⟨event, rfl⟩
    · show _ ∈ (c.world.inotify.notifySelf i .modify).watches
      rw [watches_notifySelf]
      exact h.watched
    · exact h.watched
    · -- A file at the path is not destroyed.
      have hne : f.handle.inode ≠ i := fun heq => hallows.2.1 (heq ▸ h.occupant_eq)
      exact List.mem_filter.mpr ⟨h.watched, by simpa using hne⟩
    · show _ ∈ (c.world.inotify.notify event).watches
      rw [watches_notify]
      exact h.watched
  · rcases hch with ⟨i, bytes, rfl⟩ | ⟨bytes, rfl⟩ | ⟨i, rfl⟩ | ⟨event, rfl⟩
    · by_cases hi : f.handle.inode = i
      · subst hi
        exact .inr ⟨_, List.mem_append_right _ (Adds.mem_notifySelf h.watched .modify), rfl⟩
      · exact hheard (Function.update_of_ne hi _ _)
    · exact hheard (Function.update_of_ne (Nat.ne_of_lt hlt) _ _)
    · exact hheard rfl
    · exact hheard rfl

/-- **A change** is announced. -/
theorem Alert.change {ch : Change} (h : Alert path c (batch ++ c.world.inotify.queue))
    (hallows : c.world.files.Allows (cstr (getBaseName path)) ch) :
    Alert path { c with world := c.world.change (cstr (getBaseName path)) ch }
      (batch ++ (c.world.change (cstr (getBaseName path)) ch).inotify.queue) := by
  have hfewer : FewerWatches c.world.inotify
      (c.world.change (cstr (getBaseName path)) ch).inotify := .change _ _ _
  have hadds := adds_change c.world.inotify hallows
  have hsub : batch ++ c.world.inotify.queue
      ⊆ batch ++ (c.world.change (cstr (getBaseName path)) ch).inotify.queue :=
    append_subset batch fun _ => hadds.mem
  have hlistening : Listening path { c with world := c.world.change (cstr (getBaseName path)) ch }
      (batch ++ (c.world.change (cstr (getBaseName path)) ch).inotify.queue) := by
    refine ⟨h.wired.of_fewer rfl rfl h.wired.fileWd_ne hfewer, Honest.change h.honest hallows,
      h.base_eq, h.watching.fewer rfl hfewer, ?_⟩
    intro e he
    rw [hfewer.nextWd]
    have hold : e ∈ batch ++ c.world.inotify.queue ∨ OfWatched c.world.inotify e := by
      rcases List.mem_append.mp he with he | he
      · exact .inl (List.mem_append_left _ he)
      · exact (hadds.mem_cases he).imp_left fun he => List.mem_append_right _ he
    rcases hold with hold | hdir | ⟨watch, hwatch, hwd⟩
    · exact h.past e hold
    · rw [hdir]
      exact ⟨Int.le_refl _, h.wired.lt_nextWd⟩
    · obtain ⟨f, hfp, rfl⟩ := h.watching.of_mem hwatch
      obtain ⟨hlt, hnext, -⟩ := h.watching.isOpen f hfp
      exact hwd ▸ ⟨Int.le_of_lt hlt, hnext⟩
  -- A change of the file at the path is announced by the directory.
  by_cases hname : ch = .create ∨ (∃ dest, ch = .renameAway dest) ∨
      (∃ i source early, ch = .renameOnto i source early) ∨ ∃ early, ch = .unlink early
  · have hreopens : Reopens path
        (batch ++ (c.world.change (cstr (getBaseName path)) ch).inotify.queue) :=
      (reopens_change c.world.inotify hname).mono (List.subset_append_right batch _)
    exact ⟨hlistening, fun _ _ _ => hreopens, .inl hreopens⟩
  -- Else it stays.
  have hch : (∃ i bytes, ch = .append i bytes) ∨ (∃ bytes, ch = .createElsewhere bytes) ∨
      (∃ i, ch = .destroy i) ∨ ∃ event, ch = .notice event := by
    cases ch <;> simp at hname ⊢
  have hocc : (c.world.files.change ch).occupant = c.world.files.occupant := by
    rcases hch with ⟨i, bytes, rfl⟩ | ⟨bytes, rfl⟩ | ⟨i, rfl⟩ | ⟨event, rfl⟩ <;> rfl
  have hleaving : Adds (fun e => Leaving c e → Reopens path (batch ++ c.world.inotify.queue))
      c.world.inotify (c.world.change (cstr (getBaseName path)) ch).inotify := by
    rcases hch with ⟨i, bytes, rfl⟩ | ⟨bytes, rfl⟩ | ⟨i, rfl⟩ | ⟨event, rfl⟩
    · exact .notifySelf fun _ _ _ ⟨_, hmask⟩ => by simp at hmask
    · exact .refl _
    · refine .destroy fun watch hwatch hi _ _ => ?_
      -- The inode that goes is that of the open file, which is not the one at the path.
      obtain ⟨f, hfp, rfl⟩ := h.watching.of_mem hwatch
      rcases h.upToDate with hreopens | ⟨hnone, -⟩ | ⟨f', hf', hcurrent⟩
      · exact hreopens
      · rw [hfp] at hnone
        cases hnone
      · obtain rfl : f = f' := Option.some.inj (hfp.symm.trans hf')
        exact absurd (hi ▸ hcurrent.occupant_eq) hallows.2.1
    · exact .notify fun ⟨hwd, _⟩ => absurd (hwd.symm.trans hallows.1) h.wired.fileWd_ne
  refine ⟨hlistening, ?_, ?_⟩
  · intro e he hleave
    have hreopens : Reopens path (batch ++ c.world.inotify.queue) := by
      rcases List.mem_append.mp he with he | he
      · exact h.leaving e (List.mem_append_left _ he) hleave
      · rcases hleaving.mem_cases he with he | he
        · exact h.leaving e (List.mem_append_right _ he) hleave
        · exact he hleave
    exact hreopens.mono hsub
  · refine h.upToDate.imp (fun hreopens => hreopens.mono hsub) (Or.imp ?_ ?_)
    · exact fun ⟨hfp, hnone⟩ => ⟨hfp, hocc.trans hnone⟩
    · rintro ⟨f, hfp, hcurrent⟩
      exact ⟨f, hfp, hcurrent.change (h.honest.isOpen f hfp).inode_lt hallows hocc hch⟩

/-- After a reading, the end of the file is read. -/
theorem fp_readAll {f : File Handle} (hc : HonestCall c) (hfp : c.self.fp = some f) :
    (readAll c).self.fp
      = some { f with offset := (c.world.files.content f.handle.inode).length } := by
  have hle := (hc.isOpen f hfp).follows.le_length
  unfold readAll
  rw [hfp]
  show some (List.foldl Reading.byte _ _).file = _
  rw [Reading.file_foldl, List.length_drop]
  simp [Nat.add_sub_cancel' hle]

/-- **One event.** What it does not do is still announced. -/
theorem Alert.handled {e : InotifyEvent} (hbase : cstr (getBaseName path) ≠ [])
    (h : Alert path c (e :: (batch ++ c.world.inotify.queue))) :
    Alert path (respond e c) (batch ++ (respond e c).world.inotify.queue) := by
  have hrest : Listening path c (batch ++ c.world.inotify.queue) :=
    h.toListening.mono (List.subset_cons_self _ _)
  have habout := h.toListening.aboutName_iff hbase e
  have hleave (e' : InotifyEvent) (he' : e' ∈ batch ++ c.world.inotify.queue)
      (hother : ¬ Concerns path e) (hleaving : Leaving c e') :
      Reopens path (batch ++ c.world.inotify.queue) :=
    (h.leaving e' (List.mem_cons_of_mem _ he') hleaving).tail hother
  unfold respond
  by_cases hwd : e.wd = c.self.own.fileWd
  · rw [if_pos hwd]
    have hother : ¬ Concerns path e := fun hconcerns =>
      h.wired.fileWd_ne (hwd.symm.trans hconcerns.1)
    by_cases hmask : e.mask = .moveSelf ∨ e.mask = .deleteSelf
    · -- The file is closed, and the event that opens the next one is among the rest.
      rw [if_pos hmask]
      have hreopens := (h.leaving e List.mem_cons_self ⟨hwd, hmask⟩).tail hother
      have hread : Listening path (readAll c) (batch ++ (readAll c).world.inotify.queue) := by
        simpa using hrest.readAll
      have hreopens' : Reopens path (batch ++ (shut (readAll c)).world.inotify.queue) := by
        refine hreopens.mono (append_subset batch ?_)
        obtain ⟨-, -, -, hqueue⟩ := inotify_shut hread.watching
        rw [world_readAll] at hqueue
        rcases hqueue with hqueue | ⟨-, hqueue⟩
        · rw [hqueue]
          exact List.Subset.refl _
        · rw [hqueue]
          exact List.subset_append_left _ _
      exact ⟨hread.shut, fun _ _ _ => hreopens', .inl hreopens'⟩
    · rw [if_neg hmask, world_readAll]
      refine ⟨hrest.readAll, ?_, ?_⟩
      · intro e' he' hleaving
        unfold Leaving at hleaving
        rw [own_readAll] at hleaving
        exact hleave e' he' hother hleaving
      · refine h.upToDate.imp (fun hreopens => hreopens.tail hother) (Or.imp ?_ ?_)
        · rintro ⟨hfp, hnone⟩
          rw [readAll, hfp]
          exact ⟨hfp, hnone⟩
        · rintro ⟨f, hfp, hcurrent⟩
          refine ⟨_, fp_readAll h.honest hfp, ?_⟩
          constructor
          · simpa using hcurrent.occupant_eq
          · simpa using hcurrent.watched
          · exact .inl (by simp)
  rw [if_neg hwd]
  by_cases hopens : aboutName c.self.own e = true
  · rw [if_pos hopens]
    obtain ⟨hlistening, hqueue, hnew, hfile⟩ := hrest.shut.reopen (fp_shut c)
    have hread := hlistening.readAll
    rw [world_readAll, hqueue]
    refine ⟨hread, ?_, .inr ?_⟩
    · rintro e' he' ⟨hwd', -⟩
      rw [own_readAll] at hwd'
      exact absurd hwd' (hnew e' he')
    · cases hfp : (reopen (shut c)).self.fp with
      | none =>
        refine .inl ⟨by rw [readAll, hfp]; exact hfp, ?_⟩
        rw [fp_reopen (fp_shut c), Option.map_eq_none_iff] at hfp
        simpa using hfp
      | some f =>
        obtain ⟨hocc, hwatched⟩ := hfile f hfp
        refine .inr ⟨_, fp_readAll hlistening.honest hfp, ?_, ?_, .inl (by simp)⟩
        · simpa using hocc
        · simpa using hwatched
  · rw [if_neg hopens]
    have hother : ¬ Concerns path e := fun hconcerns => hopens (habout.mpr hconcerns)
    refine ⟨hrest, fun e' he' => hleave e' he' hother, ?_⟩
    refine h.upToDate.imp (fun hreopens => hreopens.tail hother) (Or.imp_right ?_)
    rintro ⟨f, hfp, hcurrent⟩
    refine ⟨f, hfp, hcurrent.occupant_eq, hcurrent.watched, hcurrent.heard.imp_right ?_⟩
    rintro ⟨e', he', hwd'⟩
    rcases List.mem_cons.mp he' with rfl | he'
    · exact absurd hwd' hwd
    · exact ⟨e', he', hwd'⟩

end

/-! ### Runs -/

/-- The events that the watcher has not handled yet. -/
def coming (s : Monitored) : List InotifyEvent := s.batch ++ s.call.world.inotify.queue

/-- A new watcher is at the end of the file, or there is none. -/
theorem alert_of_constructed {path : Bytes} {s : Monitored} (h : Constructed path s) :
    Alert path s.call (coming s) := by
  have hwired := wired_of_constructed h
  have hhonest := honest_of_constructed h
  obtain ⟨fs, hfs, -, hbatch, -, hworld, hself⟩ := constructed_cases h
  have hbase : s.call.self.own.base = getBaseName path := by
    rw [hself]
    exact base_reopen _
  cases hocc : fs.files.occupant with
  | none =>
    have hreopen : reopen (unopened path fs) = unopened path fs := by
      unfold reopen
      simp [unopened, hocc]
    rw [hreopen] at hworld hself
    have hcoming : coming s = [] := by simp [coming, hbatch, hworld, unopened, hfs.inotify]
    rw [hcoming]
    refine ⟨⟨hwired, hhonest, hbase, ⟨?_, ?_⟩, by simp⟩, by simp, .inr (.inl ?_)⟩
    · intro _
      rw [hself, hworld]
      exact ⟨rfl, by simp [unopened, hfs.inotify]⟩
    · simp [hself, unopened]
    · rw [hself, hworld]
      exact ⟨rfl, hocc⟩
  | some i =>
    have hreopen : reopen (unopened path fs) =
        { (unopened path fs) with
          self := { (unopened path fs).self with
            fp := some ⟨fs.files.handle i, 0⟩
            own := { (unopened path fs).self.own with fileWd := dirWd + 1 } }
          world.inotify := ⟨[(dirWd + 1, i)], dirWd + 1 + 1, []⟩ } := by
      unfold reopen
      simp [unopened, hocc, Notifier.addWatch, hfs.inotify]
    rw [hreopen] at hworld hself
    have hfp : s.call.self.fp = some ⟨fs.files.handle i, (fs.files.content i).length⟩ := by
      rw [hself]
      rfl
    have hwd : s.call.self.own.fileWd = dirWd + 1 := by rw [hself]
    have hinotify : s.call.world.inotify = ⟨[(dirWd + 1, i)], dirWd + 1 + 1, []⟩ := by rw [hworld]
    have hfiles : s.call.world.files = fs.files := by
      rw [hworld]
      rfl
    have hcoming : coming s = [] := by simp [coming, hbatch, hinotify]
    rw [hcoming]
    refine ⟨⟨hwired, hhonest, hbase, ⟨?_, ?_⟩, by simp⟩, by simp, .inr (.inr ⟨_, hfp, ?_⟩)⟩
    · simp [hfp]
    · intro f hf
      cases hfp.symm.trans hf
      rw [hwd, hinotify]
      exact ⟨by decide, Int.lt_succ _, by simp [Files.handle]⟩
    · refine ⟨hfiles ▸ hocc, ?_, .inl ?_⟩
      · rw [hwd, hinotify]
        exact List.mem_cons_self
      · rw [hfiles]
        rfl

/-- **The step lemma.** -/
theorem alert_step {path : Bytes} {s s' : Monitored} {a : Action}
    (hbase : cstr (getBaseName path) ≠ []) (hs : Alert path s.call (coming s))
    (h : Transition path s a s') : Alert path s'.call (coming s') := by
  cases h with
  | changed hallows => exact hs.change hallows
  | @read k hbatch _ _ =>
    -- The events are the same, in the same order.
    have hcoming : coming s = s.call.world.inotify.queue.take k
        ++ s.call.world.inotify.queue.drop k := by
      rw [coming, hbatch, List.nil_append, List.take_append_drop]
    rw [hcoming] at hs
    refine ⟨⟨hs.wired.of_fewer rfl rfl hs.wired.fileWd_ne (.of_eq rfl rfl), hs.honest, hs.base_eq,
      ⟨hs.watching.idle, hs.watching.isOpen⟩, hs.past⟩, hs.leaving, ?_⟩
    refine hs.upToDate.imp_right (Or.imp_right ?_)
    rintro ⟨f, hfp, hcurrent⟩
    exact ⟨f, hfp, hcurrent.occupant_eq, hcurrent.watched, hcurrent.heard⟩
  | @handled event rest call hbatch hrun =>
    rw [coming, hbatch, List.cons_append] at hs
    rw [handleEvent_eq hs.wired hs.toListening.open_of_fileWd] at hrun
    cases hrun
    exact hs.handled hbase

/-- The run lemma. -/
theorem alert_of_reachable {path : Bytes} {s : Monitored} (hbase : cstr (getBaseName path) ≠ [])
    (h : Reachable (Constructed path) (Transition path) s) : Alert path s.call (coming s) :=
  h.invariant (fun _ => alert_of_constructed) fun _ _ _ => alert_step hbase

/-- There is no file at the path and none is open, or the one at the path is open and read to its
end, and every complete line it got since it was opened was delivered. -/
def UpToDate {ω : Type} (c : Call Handle ω (List Delivery) Filesystem) : Prop :=
  match c.world.files.occupant with
  | none => c.self.fp = none
  | some i => ∃ f, c.self.fp = some f ∧ f.handle.inode = i ∧
      f.offset = (c.world.files.content i).length ∧
      Follows c.client (c.world.files.content i) f c.self.line

/-- Without an event to come, there is nothing to do. -/
theorem Alert.upToDate_of_nil {path : Bytes} {c : Site} (h : Alert path c []) : UpToDate c := by
  rcases h.upToDate with ⟨e, he, -⟩ | ⟨hfp, hnone⟩ | ⟨f, hfp, hcurrent⟩
  · cases he
  · rw [UpToDate, hnone]
    exact hfp
  · rw [UpToDate, hcurrent.occupant_eq]
    refine ⟨f, hfp, rfl, hcurrent.heard.resolve_right (by simp), ?_⟩
    exact (h.honest.isOpen f hfp).follows

/-- **No wakeup is missing.** Whenever the file at the path is not open, or was not read to its
end, there is an event to handle. -/
theorem up_to_date_or_woken {path : Bytes} {s : Monitored} (hbase : cstr (getBaseName path) ≠ [])
    (h : Reachable (Constructed path) (Transition path) s) : UpToDate s.call ∨ coming s ≠ [] := by
  by_cases hcoming : coming s = []
  · exact .inl (hcoming ▸ alert_of_reachable hbase h).upToDate_of_nil
  · exact .inr hcoming

/-- A line is appended and handled. -/
def lineHandled : List Action := [.changed (.append 0 (lit "a\n")), .read 1, .handled]

/-- A line that was appended and handled. -/
theorem up_to_date_lineHandled : ∃ s : Monitored,
    s.call.client.map Delivery.text = [lit "a\n"] ∧ UpToDate s.call := by
  have hrun : (execAll (lit "/log") (fun _ _ => True) watchingOneFile lineHandled).map
      (fun s => (s.call.client.map Delivery.text, coming s)) = some ([lit "a\n"], []) := by
    decide +kernel
  obtain ⟨s, hs, hend⟩ := Option.map_eq_some_iff.mp hrun
  obtain ⟨htexts, hcoming⟩ := Prod.mk.injEq .. ▸ hend
  have hreach := (reachable_of_execAll (.start constructed_watchingOneFile) hs).of_guarded
  have hwoken : UpToDate s.call ∨ coming s ≠ [] := up_to_date_or_woken (by decide) hreach
  exact ⟨s, htexts, hwoken.resolve_right (by simp [hcoming])⟩

/-! ### When the changes stop -/

/-- The steps of the watcher: it reads some events, or handles the next one. -/
def Works (path : Bytes) (s s' : Monitored) : Prop :=
  (∃ k, Transition path s (.read k) s') ∨ Transition path s .handled s'

instance (path : Bytes) (e : InotifyEvent) : Decidable (Concerns path e) :=
  inferInstanceAs (Decidable (_ ∧ _))

/-- An event that may close the open file makes up for the event about that. -/
def cost (path : Bytes) (e : InotifyEvent) : Nat :=
  if Concerns path e ∨ e.mask = .moveSelf ∨ e.mask = .deleteSelf then 3 else 1

/-- An event that was not read yet counts for one more. -/
def workLeft (path : Bytes) (s : Monitored) : Nat :=
  (s.batch.map (cost path)).sum + (s.call.world.inotify.queue.map fun e => cost path e + 1).sum

/-- Reading events moves them. -/
theorem sum_split (f : InotifyEvent → Nat) {k : Nat} (events : List InotifyEvent) (hpos : 0 < k)
    (hle : k ≤ events.length) :
    ((events.take k).map f).sum + ((events.drop k).map fun e => f e + 1).sum
      < (events.map fun e => f e + 1).sum := by
  have hsum (es : List InotifyEvent) :
      (es.map fun e => f e + 1).sum = (es.map f).sum + es.length := by
    induction es with
    | nil => rfl
    | cons e es ih =>
      simp only [List.map_cons, List.sum_cons, ih, List.length_cons]
      omega
  have hall : (events.map f).sum = ((events.take k).map f).sum + ((events.drop k).map f).sum := by
    rw [← List.sum_append, ← List.map_append, List.take_append_drop]
  rw [hsum, hsum, hall, List.length_drop]
  omega

/-- What the handling of an event queues, its cost pays for. -/
theorem queue_respond {path : Bytes} {c : Site} {e : InotifyEvent} {batch : List InotifyEvent}
    (h : Listening path c (batch ++ c.world.inotify.queue)) (hbase : cstr (getBaseName path) ≠ []) :
    (respond e c).world.inotify.queue = c.world.inotify.queue ∨ cost path e = 3 ∧
      (respond e c).world.inotify.queue
        = c.world.inotify.queue ++ [⟨c.self.own.fileWd, .ignored, []⟩] := by
  have hshut {c : Site} (hc : SoleWatch c) :
      (shut c).world.inotify.queue = c.world.inotify.queue ∨ (shut c).world.inotify.queue
        = c.world.inotify.queue ++ [⟨c.self.own.fileWd, .ignored, []⟩] := by
    obtain ⟨-, -, -, hqueue⟩ := inotify_shut hc
    exact hqueue.imp_right And.right
  unfold respond
  split
  · split
    · rename_i hmask
      have hcost : cost path e = 3 := if_pos (.inr hmask)
      simpa [hcost] using hshut h.readAll.watching
    · exact .inl (by simp)
  · split
    · rename_i habout
      have hcost : cost path e = 3 := if_pos (.inl ((h.aboutName_iff hbase e).mp habout))
      rw [world_readAll, (h.shut.reopen (fp_shut c)).2.1]
      simpa [hcost] using hshut h.watching
    · exact .inl rfl

/-- Each step of the watcher is one towards the end. -/
theorem workLeft_lt {path : Bytes} {s s' : Monitored} (hbase : cstr (getBaseName path) ≠ [])
    (hs : Alert path s.call (coming s)) (h : Works path s s') :
    workLeft path s' < workLeft path s := by
  rcases h with ⟨k, h⟩ | h
  · cases h with
    | read hbatch hpos hle =>
      unfold workLeft
      dsimp only
      rw [hbatch, List.map_nil, List.sum_nil, Nat.zero_add]
      exact sum_split _ _ hpos hle
  · cases h with
    | @handled event rest call hbatch hrun =>
      rw [coming, hbatch, List.cons_append] at hs
      rw [handleEvent_eq hs.wired hs.toListening.open_of_fileWd] at hrun
      cases hrun
      have hrest := hs.toListening.mono (List.subset_cons_self _ _)
      unfold workLeft
      dsimp only
      rw [hbatch, List.map_cons, List.sum_cons]
      have hpos : 0 < cost path event := by
        unfold cost
        split <;> decide
      rcases queue_respond hrest hbase with hqueue | ⟨hcost, hqueue⟩
      · rw [hqueue]
        omega
      · have hignored : cost path ⟨s.call.self.own.fileWd, .ignored, []⟩ = 1 := by
          refine if_neg ?_
          rintro (⟨-, hname⟩ | hmask | hmask)
          · exact hbase hname.symm
          · cases hmask
          · cases hmask
        rw [hqueue, List.map_append, List.sum_append, List.map_singleton, List.sum_singleton,
          hignored, hcost]
        omega

/-- With an event to come, the watcher has a step. -/
theorem works_of_coming {path : Bytes} {s : Monitored} (hs : Alert path s.call (coming s))
    (hcoming : coming s ≠ []) : ∃ s', Works path s s' := by
  cases hbatch : s.batch with
  | nil =>
    have hpos : 0 < s.call.world.inotify.queue.length := by
      rw [coming, hbatch, List.nil_append] at hcoming
      exact List.length_pos_iff.mpr hcoming
    exact ⟨_, .inl ⟨1, .read hbatch Nat.one_pos hpos⟩⟩
  | cons event rest =>
    rw [coming, hbatch, List.cons_append] at hs
    have hrun := handleEvent_eq (k := 0) hs.wired hs.toListening.open_of_fileWd
    exact ⟨_, .inr (.handled hbatch hrun)⟩

/-- **When the changes stop**, the watcher comes to a state without events, whatever each `work`
reads, and it is up to date then. -/
theorem settles {path : Bytes} {s : Monitored} (hbase : cstr (getBaseName path) ≠ [])
    (h : Reachable (Constructed path) (Transition path) s) :
    Inevitably (Works path) (fun s => coming s = [] ∧ UpToDate s.call) s := by
  refine inevitably_of_measure (fun s => Alert path s.call (coming s)) (workLeft path) ?_ ?_
    (alert_of_reachable hbase h)
  · intro s hs
    by_cases hcoming : coming s = []
    · exact .inl ⟨hcoming, (hcoming ▸ hs).upToDate_of_nil⟩
    · exact .inr (works_of_coming hs hcoming)
  · intro s s' hs _ hstep
    refine .inr ⟨?_, workLeft_lt hbase hs hstep⟩
    rcases hstep with ⟨k, hstep⟩ | hstep
    · exact alert_step hbase hs hstep
    · exact alert_step hbase hs hstep

/-- The rotation and the lines of `partialLine`, before any of it is handled. -/
theorem settles_partialLine : ∃ s : Monitored, coming s ≠ [] ∧
    Inevitably (Works (lit "/log")) (fun s => coming s = [] ∧ UpToDate s.call) s := by
  have hrun : (execAll (lit "/log") (fun _ _ => True) watchingOneFile (partialLine.take 4)).map
      (fun s => (coming s).length) = some 4 := by decide +kernel
  obtain ⟨s, hs, hlength⟩ := Option.map_eq_some_iff.mp hrun
  have hreach := (reachable_of_execAll (.start constructed_watchingOneFile) hs).of_guarded
  exact ⟨s, List.ne_nil_of_length_pos (by omega), settles (by decide) hreach⟩

end Blockad.Proofs
