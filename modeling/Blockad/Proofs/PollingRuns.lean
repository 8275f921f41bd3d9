import Blockad.Proofs.NoDuplicates
import Blockad.Proofs.PollingRotation
import Blockad.Proofs.Wakeups

/-!
# `Blockad.Proofs.PollingRuns`: every run of a `PollingWatcher`

A poll that finds another file at the path loses what it did not read. What it delivers is right
all the same.

* `poll_work_eq`: a poll, as a function of the state.
* `poll_texts_genuine`: every text is a stretch of one file.
* `poll_no_duplicates`: no byte of a period is delivered twice. There is no condition, as there is
  for an `InotifyWatcher`.
* `poll_caught_up`: after a poll the watcher is up to date.
-/

set_option autoImplicit false

namespace Blockad.Proofs

open Bytes Lines Prog Runs Watcher PollingWatcher Monitored

/-! ### Reading -/

section
variable {ω : Type}

/-- The watcher when its file is read. -/
def readInto (s : Call Handle ω (List Delivery) Filesystem) (r : Reading) :
    Call Handle ω (List Delivery) Filesystem :=
  ⟨{ s.self with fp := some r.file, line := r.line }, r.log, s.world⟩

/-- The effect of `readLines`, for either watcher. -/
def readThrough (s : Call Handle ω (List Delivery) Filesystem) :
    Call Handle ω (List Delivery) Filesystem :=
  match s.self.fp with
  | none => s
  | some f => readInto s
      (((s.world.files.content f.handle.inode).drop f.offset).foldl Reading.byte
        ⟨f, s.self.line, s.client⟩)

/-- By induction on the bytes: no read fails, and the client never throws. -/
theorem readBytes_readInto (close : Prog Handle ω (List Delivery) Filesystem Unit)
    (s : Call Handle ω (List Delivery) Filesystem) (r : Reading) (bytes : Bytes) :
    readBytes record close none bytes (readInto s r)
      = .ok () (readInto s (bytes.foldl Reading.byte r)) := by
  induction bytes generalizing r with
  | nil => rfl
  | cons b rest ih =>
    rw [List.foldl_cons, ← ih]
    by_cases hb : b = nl
    · subst hb
      rw [Reading.byte_nl]
      rfl
    · rw [Reading.byte_of_ne hb]
      have hne : (b == nl) = false := by simpa using hb
      show (assign (takeByte b) >>= fun _ => if b == nl then _ else
        readBytes record close none rest) _ = _
      rw [hne]
      rfl

/-- `readLines` reads the open file to its end. -/
theorem readLines_readThrough {path : Bytes} {k : Nat}
    (close : Prog Handle ω (List Delivery) Filesystem Unit)
    {s : Call Handle ω (List Delivery) Filesystem} (h : s.self.fp.isSome) :
    readLines (kernel path k) record close s = .ok () (readThrough s) := by
  obtain ⟨⟨p, fp, line, own⟩, log, fs⟩ := s
  cases fp with
  | none => cases h
  | some f =>
    exact readBytes_readInto close ⟨⟨p, some f, line, own⟩, log, fs⟩ ⟨f, line, log⟩ _

/-- What each byte preserves, the reading of a file preserves. -/
theorem readThrough_invariant {inv : Call Handle ω (List Delivery) Filesystem → Prop}
    {s : Call Handle ω (List Delivery) Filesystem}
    (hstep : ∀ r b, inv (readInto s r) →
      (s.world.files.content r.file.handle.inode)[r.file.offset]? = some b →
        inv (readInto s (r.byte b))) (h : inv s) : inv (readThrough s) := by
  cases hfp : s.self.fp with
  | none => rwa [readThrough, hfp]
  | some f =>
    have hsame : readInto s ⟨f, s.self.line, s.client⟩ = s := by
      obtain ⟨⟨p, fp, line, own⟩, log, fs⟩ := s
      cases hfp
      rfl
    have hread := Reading.foldl_invariant
      (fun r => inv (readInto s r) ∧ r.file.handle = f.handle)
      (s.world.files.content f.handle.inode) (r := ⟨f, s.self.line, s.client⟩)
      (fun r b hr hb => ⟨hstep r b hr.1 (by rwa [hr.2]), by rw [Reading.file_byte]; exact hr.2⟩)
      ⟨hsame.symm ▸ h, rfl⟩
    rw [readThrough, hfp]
    exact hread.1

/-- The end of the file is read then. -/
theorem fp_readThrough {s : Call Handle ω (List Delivery) Filesystem} {f : File Handle}
    (hs : HonestCall s) (hfp : s.self.fp = some f) : (readThrough s).self.fp
      = some { f with offset := (s.world.files.content f.handle.inode).length } := by
  have hle := (hs.isOpen f hfp).follows.le_length
  unfold readThrough
  rw [hfp]
  show some (List.foldl Reading.byte _ _).file = _
  rw [Reading.file_foldl, List.length_drop]
  simp [Nat.add_sub_cancel' hle]

end

/-! ### One poll -/

/-- The effect of `closeFile`. -/
def pollShut (s : PollSite) : PollSite :=
  match s.self.fp with
  | none => s
  | some f =>
    { self := { s.self with
        fp := none
        line := []
        own := { s.self.own with dev := -1, ino := -1 } }
      client := if s.self.line.isEmpty then s.client else s.client ++ [⟨f, s.self.line⟩]
      world := { s.world with files := s.world.files.close f.handle } }

/-- The effect of `work`. -/
def polled (now : Int) (s : PollSite) : PollSite :=
  readThrough (pollOpened
    (if s.self.fp.isSome && replaced s then pollShut (tick now s) else tick now s))

section
variable {α : Type} {s : Call Handle Polling α Filesystem}

/-- Opening changes no file. -/
@[simp] theorem files_pollOpened : (pollOpened s).world.files = s.world.files := by
  unfold pollOpened; split <;> rfl

/-- Opening delivers nothing. -/
@[simp] theorem client_pollOpened : (pollOpened s).client = s.client := by
  unfold pollOpened; split <;> rfl

/-- Opening keeps the line. -/
@[simp] theorem line_pollOpened : (pollOpened s).self.line = s.self.line := by
  unfold pollOpened; split <;> rfl

/-- The file that is open when the poll reads. -/
theorem fp_pollOpened (hnone : s.self.fp = none) : (pollOpened s).self.fp
    = s.world.files.occupant.map fun i => ⟨s.world.files.handle i, 0⟩ := by
  unfold pollOpened
  rw [hnone]
  cases s.world.files.occupant with
  | none => exact hnone
  | some i => rfl

end

section
variable {path : Bytes} {now : Int} {s : PollSite}

/-- `closeFile` has the effect `pollShut`. -/
theorem poll_closeFile_eq : closeFile (pollKernel path now) record s = .ok () (pollShut s) := by
  obtain ⟨⟨p, fp, line, own⟩, log, fs⟩ := s
  cases fp with
  | none => rfl
  | some f => cases line <;> rfl

/-- The end of `work` opens what is there and reads it. -/
theorem readOpened_eq : readOpened path now record s = .ok () (readThrough (pollOpened s)) := by
  unfold readOpened
  by_cases hopen : (pollOpened s).self.fp.isSome
  · rw [if_pos hopen, readLines_readThrough _ hopen]
  · rw [if_neg hopen]
    have hnone : (pollOpened s).self.fp = none := by simpa using hopen
    rw [readThrough, hnone]

/-- Closing keeps the path. -/
@[simp] theorem path_pollShut : (pollShut s).self.path = s.self.path := by
  unfold pollShut; split <;> rfl

/-- After closing, no file is open. -/
@[simp] theorem fp_pollShut : (pollShut s).self.fp = none := by
  unfold pollShut; split
  · assumption
  · rfl

/-- Closing changes the set of closed files only. -/
theorem files_pollShut : (pollShut s).world.files
    = { s.world.files with closed := (pollShut s).world.files.closed } := by
  unfold pollShut
  split
  · rfl
  · exact close_eq _ _

/-- **One poll.** It returns. -/
theorem poll_work_eq (hpath : s.self.path = path) :
    work (pollKernel path now) record s = .ok () (polled now s) := by
  have hends : Ends (fun _ s' => s' = polled now s) (fun _ _ => False)
      (work (pollKernel path now) record s) := by
    refine poll_work_ends hpath (fun hkeep => ?_) fun hopen hother => ?_
    · rw [readOpened_eq]
      have hcond : ¬ (s.self.fp.isSome && replaced s) = true := by
        rcases hkeep with hnone | hsame
        · simp [hnone]
        · simp [hsame]
      rw [polled, if_neg hcond]
      rfl
    · rw [poll_closeFile_eq]
      refine ⟨by simpa [tick] using hpath, ?_⟩
      rw [readOpened_eq, polled, if_pos (by simp [hopen, hother])]
      rfl
  obtain ⟨_, s', hrun, rfl⟩ := hends.exists_ok
  exact hrun

end

/-! ### Genuine texts -/

/-- A watcher was constructed in a file system that was not watched yet. -/
def PollStarted (path : Bytes) (s : PollSite) : Prop :=
  ∃ now fs, Unwatched fs ∧ construct (pollKernel path now) path fs = .ok s.self s.world ∧
    s.client = []

section
variable {path : Bytes} {now : Int} {s : PollSite}

/-- A start is a constructor that returned. -/
theorem PollStarted.constructed (h : PollStarted path s) : PollConstructed path s := by
  obtain ⟨now, fs, -, hmade⟩ := h
  exact ⟨now, fs, hmade⟩

/-- Reading delivers texts that are in the file. -/
theorem honest_readThrough {ω : Type} {s : Call Handle ω (List Delivery) Filesystem}
    (h : HonestCall s) : HonestCall (readThrough s) := by
  unfold readThrough
  cases hfp : s.self.fp with
  | none => exact h
  | some f =>
    have hopen : Honest (some f) s.self.line s.client s.world.files := hfp ▸ h
    exact hopen.read

/-- The line that closing delivers is in the file too. -/
theorem honest_pollShut (h : HonestCall s) : HonestCall (pollShut s) := by
  unfold pollShut
  cases hfp : s.self.fp with
  | none => exact h
  | some f =>
    have hopen : Honest (some f) s.self.line s.client s.world.files := hfp ▸ h
    exact hopen.close

/-- Opening begins a new line. -/
theorem honest_pollOpened (h : HonestCall s) : HonestCall (pollOpened s) := by
  unfold pollOpened
  split
  · rename_i i hfp hocc
    have hclosed : Honest none s.self.line s.client s.world.files := hfp ▸ h
    exact hclosed.openAt hocc (.inl rfl)
  · exact h

/-- **One call to `work`.** -/
theorem honest_polled (h : HonestCall s) : HonestCall (polled now s) := by
  have htick : HonestCall (tick now s) := h
  refine honest_readThrough (honest_pollOpened ?_)
  split
  · exact honest_pollShut htick
  · exact htick

/-- A new watcher has delivered nothing. -/
theorem honest_of_pollStarted (h : PollStarted path s) : HonestCall s := by
  obtain ⟨now, fs, hfs, hmade, hclient⟩ := h
  rw [poll_construct_eq] at hmade
  obtain ⟨hself, hworld⟩ := EStateM.Result.ok.inj hmade
  have hopened : Honest (pollOpened (unpolled path now fs)).self.fp
      (pollOpened (unpolled path now fs)).self.line []
      (pollOpened (unpolled path now fs)).world.files := by
    unfold pollOpened
    split
    · rename_i i _ hocc
      exact (Honest.of_unwatched hfs).openAt hocc (.inl rfl)
    · exact Honest.of_unwatched hfs
  rw [hself, hworld, ← hclient] at hopened
  exact hopened

/-- **The step lemma**, with the recorded identity. -/
theorem poll_honest_step {s' : PollSite} {a : PollAction} (hs : FollowsPath path s ∧ HonestCall s)
    (h : PollStep path s a s') : FollowsPath path s' ∧ HonestCall s' := by
  refine ⟨follows_step hs.1 h, ?_⟩
  cases h with
  | changed hallows => exact Honest.change hs.2 hallows
  | worked hrun =>
    rw [poll_work_eq hs.1.path] at hrun
    cases hrun
    exact honest_polled hs.2

/-- The run lemma. -/
theorem poll_honest_of_reachable (h : Reachable (PollStarted path) (PollStep path) s) :
    FollowsPath path s ∧ HonestCall s :=
  h.invariant
    (fun _ hs => ⟨follows_of_constructed hs.constructed, honest_of_pollStarted hs⟩)
    fun _ _ _ => poll_honest_step

/-- **Every text is genuine**, also of a file that a poll finds replaced. -/
theorem poll_texts_genuine (h : Reachable (PollStarted path) (PollStep path) s) :
    ∀ d ∈ s.client, Genuine (s.world.files.content d.file.handle.inode) d :=
  (poll_honest_of_reachable h).2.genuine

end

/-- The log of `pollingEmpty` was not watched before. -/
theorem pollStarted_pollingEmpty : PollStarted (lit "/log") pollingEmpty := by
  refine ⟨7, oneFile, ⟨?_, nofun, rfl, rfl, rfl, rfl⟩, rfl, rfl⟩
  rintro i ⟨⟩
  exact ⟨Nat.one_pos, List.not_mem_nil⟩

/-- One line, before it is read. -/
theorem pollReachable_pollingLine :
    Reachable (PollStarted (lit "/log")) (PollStep (lit "/log")) pollingLine :=
  .next _ (.start pollStarted_pollingEmpty) (.changed (c := .append 0 (lit "a\n")) Nat.one_pos)

/-- The poll that reads it. -/
theorem pollStep_pollingLine :
    PollStep (lit "/log") pollingLine (.worked 8) (polled 8 pollingLine) :=
  .worked (poll_work_eq rfl)

/-- One line, and one poll. -/
theorem poll_texts_genuine_pollingLine :
    (polled 8 pollingLine).client.map Delivery.text = [lit "a\n"] ∧
      ∀ d ∈ (polled 8 pollingLine).client,
        Genuine ((polled 8 pollingLine).world.files.content d.file.handle.inode) d :=
  ⟨by decide +kernel,
    poll_texts_genuine (.next _ pollReachable_pollingLine pollStep_pollingLine)⟩

section
variable {path : Bytes} {now : Int} {s : PollSite}

/-! ### Duplicates -/

/-- The same watcher, without the members of its class. -/
def asSite (s : PollSite) : Site :=
  ⟨⟨s.self.path, s.self.fp, s.self.line, ⟨[], [], -1, -1, -1⟩⟩, s.client, s.world⟩

/-- What was delivered in the current period is from the open file, while the period lasts. -/
structure PollApart (s : PollSite) : Prop where
  apart : Apart (asSite s)
  present : ∀ d ∈ s.client, d.period = s.world.files.period →
    s.world.files.occupant = none ∨
      ∃ f, s.self.fp = some f ∧ f.handle.period = s.world.files.period

/-- A file that was replaced is not of the current period. -/
theorem period_ne_of_replaced {f : File Handle} (hfollows : FollowsPath path s)
    (hhonest : HonestCall s) (hfp : s.self.fp = some f) (hother : replaced s = true) :
    s.world.files.occupant = none ∨ f.handle.period ≠ s.world.files.period := by
  cases hocc : s.world.files.occupant with
  | none => exact .inl rfl
  | some i =>
    refine .inr fun hperiod => ?_
    obtain ⟨hdev, hino⟩ := hfollows.identity f hfp
    have hleft : s.world.files.leftLen f.handle.period = none :=
      hperiod ▸ hhonest.placed.current i hocc
    have hsame := ((hhonest.isOpen f hfp).present hleft).2
    obtain rfl : i = f.handle.inode := Option.some.inj (hocc.symm.trans hsame)
    simp [replaced, hocc, hdev, hino] at hother

/-- What is read was not read before. -/
theorem pollApart_readThrough (h : PollApart s) : PollApart (readThrough s) := by
  refine readThrough_invariant (fun r b hr _ => ⟨apart_byte (c := asSite s) b hr.apart, ?_⟩) h
  intro d hd hperiod
  have hfile : (r.byte b).file.handle = r.file.handle := by rw [Reading.file_byte]
  have hcurrent : s.world.files.occupant = none ∨ r.file.handle.period = s.world.files.period := by
    by_cases hnl : b = nl
    · subst hnl
      change d ∈ (r.byte nl).log at hd
      rw [Reading.byte_nl] at hd
      rcases List.mem_append.mp hd with hd | hd
      · refine (hr.present d hd hperiod).imp_right ?_
        rintro ⟨f, ⟨⟩, hf⟩
        exact hf
      · rw [List.mem_singleton.mp hd] at hperiod
        exact .inr hperiod
    · change d ∈ (r.byte b).log at hd
      rw [Reading.byte_of_ne hnl] at hd
      refine (hr.present d hd hperiod).imp_right ?_
      rintro ⟨f, ⟨⟩, hf⟩
      exact hf
  exact hcurrent.imp_right fun hperiod => ⟨_, rfl, hfile ▸ hperiod⟩

/-- A file that is opened is read from its start, in a period that nothing was delivered of. -/
theorem pollApart_pollOpened (h : PollApart s) : PollApart (pollOpened s) := by
  unfold pollOpened
  split
  · rename_i i hfp hocc
    refine ⟨⟨h.apart.pairwise, h.apart.past, ?_, ?_⟩, fun _ _ _ => .inr ⟨_, rfl, rfl⟩⟩
    · rintro f ⟨⟩
      exact le_rfl
    · rintro f ⟨⟩ d hd hperiod
      rcases h.present d hd hperiod with hnone | ⟨f, hf, -⟩
      · cases hocc.symm.trans hnone
      · cases hfp.symm.trans hf
  · exact h

/-- A file is only closed when another one is at the path. -/
theorem pollApart_pollShut {f : File Handle} (h : PollApart s) (hfp : s.self.fp = some f)
    (hgone : s.world.files.occupant = none ∨ f.handle.period ≠ s.world.files.period) :
    PollApart (pollShut s) := by
  have hapart : asSite (pollShut s) = shut (asSite s) := by
    obtain ⟨⟨p, fp, line, own⟩, log, fs⟩ := s
    cases hfp
    rfl
  refine ⟨hapart ▸ apart_shut h.apart, ?_⟩
  rw [files_pollShut]
  intro d hd hperiod
  refine .inl ?_
  have hold : d ∈ s.client ∨ d.period = f.handle.period := by
    unfold pollShut at hd
    rw [hfp] at hd
    dsimp only at hd
    split at hd
    · exact .inl hd
    · refine (List.mem_append.mp hd).imp_right fun hd => ?_
      rw [List.mem_singleton.mp hd]
      rfl
  rcases hgone with hnone | hne
  · exact hnone
  · rcases hold with hold | hold
    · rcases h.present d hold hperiod with hnone | ⟨g, hg, hsame⟩
      · exact hnone
      · obtain rfl : f = g := Option.some.inj (hfp.symm.trans hg)
        exact absurd hsame hne
    · exact absurd (hold.symm.trans hperiod) hne

/-- **One call to `work`.** -/
theorem pollApart_polled (hfollows : FollowsPath path s) (hhonest : HonestCall s)
    (h : PollApart s) : PollApart (polled now s) := by
  have htick : PollApart (tick now s) := ⟨⟨h.apart.pairwise, h.apart.past, h.apart.openPast,
    h.apart.pending⟩, h.present⟩
  refine pollApart_readThrough (pollApart_pollOpened ?_)
  split
  · rename_i hother
    rw [Bool.and_eq_true] at hother
    obtain ⟨f, hf⟩ := Option.isSome_iff_exists.mp hother.1
    exact pollApart_pollShut htick hf
      (period_ne_of_replaced (s := s) hfollows hhonest hf hother.2)
  · exact htick

/-- A change keeps the file at the path, removes it, or starts a new period. -/
theorem period_change_cases (fs : Files) (c : Change) :
    (fs.change c).occupant = fs.occupant ∨ (fs.change c).occupant = none ∨
      fs.period < (fs.change c).period := by
  have hdepart : fs.depart.period = fs.period := by
    unfold Files.depart
    split <;> rfl
  cases c with
  | append _ _ => exact .inl rfl
  | createElsewhere _ => exact .inl rfl
  | create => exact .inr (.inr (Nat.lt_succ_self _))
  | renameAway _ => exact .inr (.inl (occupant_depart fs))
  | renameOnto i _ _ =>
    refine .inr (.inr ?_)
    show fs.period < fs.depart.period + 1
    rw [hdepart]
    exact Nat.lt_succ_self _
  | unlink _ => exact .inr (.inl (occupant_depart fs))
  | destroy _ => exact .inl rfl
  | notice _ => exact .inl rfl

/-- A change delivers nothing. -/
theorem pollApart_change {name : Bytes} {c : Change} (h : PollApart s) :
    PollApart { s with world := s.world.change name c } := by
  have hle := period_le_change s.world.files c
  refine ⟨⟨h.apart.pairwise, fun d hd => (h.apart.past d hd).trans hle,
    fun f hf => (h.apart.openPast f hf).trans hle, h.apart.pending⟩, ?_⟩
  intro d hd hperiod
  change d.period = (s.world.files.change c).period at hperiod
  -- Nothing was delivered of a period that is new.
  have hold : (s.world.files.change c).period = s.world.files.period := by
    have hpast := h.apart.past d hd
    exact le_antisymm (hperiod ▸ hpast) hle
  rcases period_change_cases s.world.files c with hocc | hnone | hlt
  · show (s.world.files.change c).occupant = none ∨ ∃ f, s.self.fp = some f ∧
      f.handle.period = (s.world.files.change c).period
    rw [hocc, hold]
    exact h.present d hd (hperiod.trans hold)
  · exact .inl hnone
  · exact absurd hold (Nat.ne_of_gt hlt)

/-- A new watcher has delivered nothing. -/
theorem pollApart_of_pollStarted (h : PollStarted path s) : PollApart s := by
  obtain ⟨now, fs, -, hmade, hclient⟩ := h
  rw [poll_construct_eq] at hmade
  obtain ⟨hself, hworld⟩ := EStateM.Result.ok.inj hmade
  refine ⟨⟨by simp [asSite, hclient], by simp [asSite, hclient], ?_, by simp [asSite, hclient]⟩,
    by simp [hclient]⟩
  intro f hf
  change s.self.fp = some f at hf
  rw [← hself, fp_pollOpened rfl] at hf
  obtain ⟨i, -, rfl⟩ := Option.map_eq_some_iff.mp hf
  show _ ≤ s.world.files.period
  rw [← hworld, files_pollOpened]
  exact le_rfl

/-- The step lemma. -/
theorem pollApart_step {s' : PollSite} {a : PollAction}
    (hs : (FollowsPath path s ∧ HonestCall s) ∧ PollApart s) (h : PollStep path s a s') :
    (FollowsPath path s' ∧ HonestCall s') ∧ PollApart s' := by
  refine ⟨poll_honest_step hs.1 h, ?_⟩
  obtain ⟨⟨hfollows, hhonest⟩, hapart⟩ := hs
  cases h with
  | changed hallows => exact pollApart_change hapart
  | worked hrun =>
    rw [poll_work_eq hfollows.path] at hrun
    cases hrun
    exact pollApart_polled hfollows hhonest hapart

/-- **No byte of a period is delivered twice.** -/
theorem poll_no_duplicates (h : Reachable (PollStarted path) (PollStep path) s)
    (period pos : Nat) : s.client.countP (covers period pos) ≤ 1 := by
  have hinv : (FollowsPath path s ∧ HonestCall s) ∧ PollApart s :=
    h.invariant
      (fun _ hs => ⟨poll_honest_of_reachable (.start hs), pollApart_of_pollStarted hs⟩)
      fun _ _ _ => pollApart_step
  exact countP_covers_le_one hinv.2.apart.pairwise period pos

/-- One line, and one poll. -/
theorem poll_no_duplicates_pollingLine :
    (polled 8 pollingLine).client.countP (covers 0 1) = 1 ∧
      ∀ period pos, (polled 8 pollingLine).client.countP (covers period pos) ≤ 1 :=
  ⟨by decide +kernel,
    poll_no_duplicates (.next _ pollReachable_pollingLine pollStep_pollingLine)⟩

/-! ### After a poll -/

/-- Reading to the end of the file at the path. -/
theorem upToDate_readThrough (h : HonestCall s)
    (hnone : s.self.fp = none → s.world.files.occupant = none)
    (hsome : ∀ f, s.self.fp = some f → s.world.files.occupant = some f.handle.inode) :
    UpToDate (readThrough s) := by
  have hread := honest_readThrough h
  cases hfp : s.self.fp with
  | none =>
    have hsame : readThrough s = s := by rw [readThrough, hfp]
    rw [hsame, UpToDate, hnone hfp]
    exact hfp
  | some f =>
    have hfiles : (readThrough s).world.files = s.world.files := by
      unfold readThrough
      rw [hfp]
      rfl
    have hend := fp_readThrough h hfp
    rw [UpToDate, hfiles, hsome f hfp]
    refine ⟨_, hend, rfl, rfl, ?_⟩
    have hfollows := (hread.isOpen _ hend).follows
    rw [hfiles] at hfollows
    exact hfollows

/-- **One call to `work`** catches up. -/
theorem upToDate_polled (hfollows : FollowsPath path s) (hhonest : HonestCall s) :
    UpToDate (polled now s) := by
  have htick : HonestCall (tick now s) := hhonest
  unfold polled
  split
  · -- Another file is open now, or none.
    have hclosed := honest_pollShut htick
    have hnone : (pollShut (tick now s)).self.fp = none := fp_pollShut
    refine upToDate_readThrough (honest_pollOpened hclosed) ?_ ?_
    · rw [fp_pollOpened hnone, files_pollOpened]
      exact Option.map_eq_none_iff.mp
    · intro f hf
      rw [files_pollOpened]
      exact occupant_of_pollOpened hnone hf
  · rename_i hkeep
    refine upToDate_readThrough (honest_pollOpened htick) ?_ ?_
    · intro hnone
      rw [files_pollOpened]
      cases hfp : (tick now s).self.fp with
      | none => rwa [fp_pollOpened hfp, Option.map_eq_none_iff] at hnone
      | some f =>
        rw [pollOpened, hfp] at hnone
        cases hfp.symm.trans hnone
    · intro f hf
      rw [files_pollOpened]
      cases hfp : (tick now s).self.fp with
      | none => exact occupant_of_pollOpened hfp hf
      | some g =>
        rw [pollOpened, hfp] at hf
        obtain rfl : g = f := Option.some.inj (hfp.symm.trans hf)
        -- It is still the one at the path.
        change s.self.fp = some g at hfp
        obtain ⟨hdev, hino⟩ := hfollows.identity g hfp
        have hsame : replaced s = false := by simpa [hfp] using hkeep
        show s.world.files.occupant = some g.handle.inode
        cases hocc : s.world.files.occupant with
        | none => simp [replaced, hocc] at hsame
        | some i =>
          have heq : (i : Int) = g.handle.inode := by simpa [replaced, hocc, hdev, hino] using hsame
          rw [Int.ofNat.inj heq]

/-- **A poll leaves nothing to do**: the file at the path is open and read to its end. -/
theorem poll_caught_up {s' : PollSite} (h : Reachable (PollStarted path) (PollStep path) s)
    (hstep : PollStep path s (.worked now) s') : UpToDate s' := by
  have hs := poll_honest_of_reachable h
  have hhonest : HonestCall s' := (poll_honest_of_reachable (.next _ h hstep)).2
  cases hstep with
  | worked hrun =>
    rw [poll_work_eq hs.1.path] at hrun
    cases hrun
    exact upToDate_polled hs.1 hs.2

end

/-- One line, and one poll. -/
theorem poll_caught_up_pollingLine : UpToDate (polled 8 pollingLine) :=
  poll_caught_up pollReachable_pollingLine pollStep_pollingLine

end Blockad.Proofs
