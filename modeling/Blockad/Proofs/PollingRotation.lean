import Blockad.Proofs.Polling

/-!
# `Blockad.Proofs.PollingRotation`: a `PollingWatcher` does not read a file to its end

`work` compares the identities before it reads. When the file was renamed away, replaced or
unlinked since the last poll, the old one is closed as it is, and what was appended to it after
that poll is never read.

* `FollowsPath`: the invariant of the runs, that the recorded identity is that of the open file.
* `rotated_work_ends`: a poll after a rotation delivers the pending line of the old file, and
  then lines of other files.
* `saves_iff_of_rotated`: nothing is lost exactly when there was nothing left to read.
-/

set_option autoImplicit false

namespace Blockad.Proofs

open Bytes Pieces Prog Runs Watcher PollingWatcher

/-- A `PollingWatcher` with its calls so far and its environment. -/
abbrev PollSite := Call Handle Polling (List Delivery) Filesystem

/-! ### Runs -/

/-- A watcher that was constructed. -/
def PollConstructed (path : Bytes) (s : PollSite) : Prop :=
  ∃ now fs, construct (pollKernel path now) path fs = .ok s.self s.world ∧ s.client = []

/-- What happens. -/
inductive PollAction where
  | changed (c : Change)
  | worked (now : Int)

/-- A change, or a poll. -/
inductive PollStep (path : Bytes) : PollSite → PollAction → PollSite → Prop where
  | changed {s : PollSite} {c : Change}
      (h : s.world.files.Allows (cstr (getBaseName path)) c) :
      PollStep path s (.changed c) { s with world := s.world.change (cstr (getBaseName path)) c }
  | worked {s s' : PollSite} {now : Int} (h : work (pollKernel path now) record s = .ok () s') :
      PollStep path s (.worked now) s'

/-- The identity that was recorded is that of the open file, and the pending line is not
complete. -/
structure FollowsPath (path : Bytes) (s : PollSite) : Prop where
  path : s.self.path = path
  identity : ∀ f, s.self.fp = some f → s.self.own.dev = 0 ∧ s.self.own.ino = f.handle.inode
  line : nl ∉ s.self.line

section
variable {path : Bytes} {now : Int} {s : PollSite}

/-- Reading a file leaves the watcher following it, and delivers lines of this file. -/
theorem readLines_follows {close : Prog Handle Polling (List Delivery) Filesystem Unit}
    {f : File Handle} (hs : FollowsPath path s) (hfp : s.self.fp = some f) :
    Ends (fun _ s' => FollowsPath path s' ∧ ∃ ds, s'.client = s.client ++ ds ∧
        ∀ d ∈ ds, d.file.handle = f.handle) (fun _ _ => False)
      (readLines (kernel path 0) record close s) := by
  let inv (s' : PollSite) : Prop := (FollowsPath path s' ∧
    ∃ g, s'.self.fp = some g ∧ g.handle = f.handle) ∧
      ∃ ds, s'.client = s.client ++ ds ∧ ∀ d ∈ ds, d.file.handle = f.handle
  have hkeep : Preserved record inv (fun _ _ => False) := by
    refine ⟨?_, ?_⟩
    · rintro s' c hc ⟨⟨hs', g, hg, hhandle⟩, hds⟩
      refine ⟨⟨⟨hs'.path, ?_, ?_⟩, { g with offset := g.offset + 1 }, ?_, hhandle⟩, hds⟩
      · rintro g' hg'
        simp only [takeByte, hg, Option.map_some] at hg'
        cases hg'
        exact hs'.identity g hg
      · simpa [takeByte] using ⟨hs'.line, Ne.symm hc⟩
      · simp [takeByte, hg]
    · rintro ⟨⟨p, fp, line, own⟩, client, w⟩ ⟨⟨hs', g, hg, hhandle⟩, ds, hds, hmem⟩
      cases hg
      let d : Delivery := ⟨{ g with offset := g.offset + 1 }, line ++ [nl]⟩
      refine ⟨⟨⟨hs'.path, ?_, List.not_mem_nil⟩, d.file, rfl, hhandle⟩, ds ++ [d], ?_, ?_⟩
      · rintro g' ⟨⟩
        exact hs'.identity g rfl
      · show client ++ [d] = s.client ++ (ds ++ [d])
        rw [← List.append_assoc, ← hds]
      · intro d' hd'
        rcases List.mem_append.mp hd' with hd' | hd'
        · exact hmem d' hd'
        · rw [List.mem_singleton.mp hd']
          exact hhandle
  refine (readLines_ends hkeep (fun g s' errno _ herror _ => ?_)
    ⟨⟨hs, f, hfp, rfl⟩, [], by simp, by simp⟩ (by simp [hfp])).mono (fun _ s' hs' => ?_)
    fun _ _ => id
  · cases herror
  · exact ⟨hs'.1.1, hs'.2⟩

/-- The file that is opened is the one at the path. -/
theorem occupant_of_pollOpened {f : File Handle} (hnone : s.self.fp = none)
    (hfp : (pollOpened s).self.fp = some f) : s.world.files.occupant = some f.handle.inode := by
  unfold pollOpened at hfp
  rw [hnone] at hfp
  cases hocc : s.world.files.occupant with
  | none =>
    rw [hocc] at hfp
    cases hnone.symm.trans hfp
  | some i =>
    rw [hocc] at hfp
    cases hfp
    rfl

/-- An opened file is the one at the path. -/
theorem follows_pollOpened (hs : FollowsPath path s) : FollowsPath path (pollOpened s) := by
  unfold pollOpened
  split
  · refine ⟨hs.path, ?_, hs.line⟩
    rintro f ⟨⟩
    exact ⟨rfl, rfl⟩
  · exact hs

/-- The pending line is all that a file delivers when it is closed. -/
theorem closeFile_follows {f : File Handle} (hs : FollowsPath path s) (hfp : s.self.fp = some f) :
    Ends (fun _ s' => FollowsPath path s' ∧ s'.self.fp = none ∧ s'.world.files.occupant =
        s.world.files.occupant ∧ s'.client = s.client ++
          if s.self.line = [] then [] else [⟨f, s.self.line⟩]) (fun _ _ => False)
      (closeFile (pollKernel path now) record s) := by
  have hocc : (s.world.files.close f.handle).occupant = s.world.files.occupant := by
    rw [close_eq]
  refine poll_closeFile_ends (fun hnone => by rw [hfp] at hnone; cases hnone) ?_ ?_
  · rintro g hg hempty
    cases hfp.symm.trans hg
    exact ⟨⟨hs.path, nofun, hs.line⟩, rfl, hocc, by simp [pollClosed, hempty]⟩
  · rintro g hg hline
    cases hfp.symm.trans hg
    refine ⟨⟨hs.path, nofun, List.not_mem_nil⟩, rfl, hocc, ?_⟩
    rw [if_neg hline]
    show s.client ++ s.self.fp.toList.map _ = _
    rw [hfp]
    rfl

/-- The end of a poll delivers lines of the file that is open then. -/
theorem readOpened_follows (hs : FollowsPath path s) :
    Ends (fun _ s' => FollowsPath path s' ∧ ∃ ds, s'.client = s.client ++ ds ∧
        ∀ d ∈ ds, ∃ f, (pollOpened s).self.fp = some f ∧ d.file.handle = f.handle)
      (fun _ _ => False) (readOpened path now record s) := by
  have hclient : (pollOpened s).client = s.client := by unfold pollOpened; split <;> rfl
  unfold readOpened
  cases hfp : (pollOpened s).self.fp with
  | none => exact ⟨follows_pollOpened hs, [], by simp [hclient], nofun⟩
  | some f =>
    refine (readLines_follows (follows_pollOpened hs) hfp).mono
      (fun _ s' hread => ?_) fun _ _ => id
    obtain ⟨hs', ds, hds, hmem⟩ := hread
    exact ⟨hs', ds, by rw [hds, hclient], fun d hd => ⟨f, rfl, hmem d hd⟩⟩

/-- The time of the next call has no part in it. -/
theorem follows_tick (hs : FollowsPath path s) : FollowsPath path (tick now s) :=
  ⟨hs.path, hs.identity, hs.line⟩

/-- A new watcher has the file at the path. -/
theorem follows_of_constructed (h : PollConstructed path s) : FollowsPath path s := by
  obtain ⟨now, fs, hmade, -⟩ := h
  rw [poll_construct_eq] at hmade
  have hself : (pollOpened (unpolled path now fs)).self = s.self := (EStateM.Result.ok.inj hmade).1
  cases hocc : fs.files.occupant with
  | none =>
    have hnone : s.self = (unpolled path now fs).self := by
      simp [← hself, pollOpened, unpolled, hocc]
    exact ⟨by rw [hnone]; rfl, by simp [hnone, unpolled], by simp [hnone, unpolled]⟩
  | some i =>
    have hsome : s.self = ⟨path, some ⟨fs.files.handle i, 0⟩, [], ⟨now, 0, i⟩⟩ := by
      simp [← hself, pollOpened, unpolled, hocc]
    refine ⟨by rw [hsome], ?_, by simp [hsome]⟩
    rw [hsome]
    rintro f ⟨⟩
    exact ⟨rfl, rfl⟩

/-- **`work`** ends with the file at the path, and never throws. -/
theorem work_follows (hs : FollowsPath path s) :
    Ends (fun _ s' => FollowsPath path s') (fun _ _ => False)
      (work (pollKernel path now) record s) := by
  refine poll_work_ends hs.path (fun _ => ?_) fun hopen _ => ?_
  · exact (readOpened_follows (follows_tick hs)).mono (fun _ _ h => h.1) fun _ _ => id
  · obtain ⟨f, hf⟩ := Option.isSome_iff_exists.mp hopen
    refine (closeFile_follows (follows_tick hs) hf).mono (fun _ s₁ h => ⟨h.1.path, ?_⟩)
      fun _ _ => id
    exact (readOpened_follows h.1).mono (fun _ _ h => h.1) fun _ _ => id

/-- **One step.** -/
theorem follows_step {s' : PollSite} {a : PollAction} (hs : FollowsPath path s)
    (h : PollStep path s a s') : FollowsPath path s' := by
  cases h with
  | changed h => exact ⟨hs.path, hs.identity, hs.line⟩
  | worked h => exact (work_follows hs).ok h

/-! ### Rotation -/

variable (now) in
/-- A poll after a rotation: the pending line of the old file, and then lines of other files. -/
theorem rotated_work_ends {f : File Handle} (hs : FollowsPath path s) (hfp : s.self.fp = some f)
    (hgone : s.world.files.occupant ≠ some f.handle.inode) :
    Ends (fun _ s' => ∃ es, s'.client = s.client ++
        (if s.self.line = [] then [] else [⟨f, s.self.line⟩]) ++ es ∧
          ∀ e ∈ es, e.file.handle.inode ≠ f.handle.inode) (fun _ _ => False)
      (work (pollKernel path now) record s) := by
  have hother : replaced s = true := by
    unfold replaced
    cases hocc : s.world.files.occupant with
    | none => rfl
    | some i =>
      have hne : (i : Int) ≠ f.handle.inode := fun h => hgone (by rw [hocc, Int.ofNat.inj h])
      simp [(hs.identity f hfp).2, hne]
  refine poll_work_ends hs.path (fun hkeep => ?_) fun _ _ => ?_
  · rcases hkeep with hnone | hsame
    · cases hfp.symm.trans hnone
    · cases hother.symm.trans hsame
  · refine (closeFile_follows (follows_tick hs) hfp).mono (fun _ s₁ hclosed => ?_) fun _ _ => id
    obtain ⟨hs₁, hnone, hocc, hclient⟩ := hclosed
    refine ⟨hs₁.path, (readOpened_follows hs₁).mono (fun _ s₂ hread => ?_) fun _ _ => id⟩
    obtain ⟨-, es, hes, hmem⟩ := hread
    refine ⟨es, ?_, ?_⟩
    · rw [hes, hclient]
      rfl
    · intro e he
      obtain ⟨g, hg, hhandle⟩ := hmem e he
      -- The other file is the one at the path.
      rw [hhandle]
      intro heq
      refine hgone ((hocc.symm.trans (occupant_of_pollOpened hnone hg)).trans ?_)
      rw [heq]

/-- The file at the path goes: it is renamed away, replaced or unlinked. -/
def Departs : Change → Prop
  | .renameAway _ | .renameOnto _ _ _ | .unlink _ => True
  | _ => False

/-- One change, if it can happen. -/
def Happens (name : Bytes) (fs fs' : Filesystem) : Prop :=
  ∃ c, fs.files.Allows name c ∧ fs' = fs.change name c

/-- The file `i` has gone from the path, and it is not back. Other changes may have followed. -/
def Rotated (name : Bytes) (i : Nat) (fs fs' : Filesystem) : Prop :=
  fs.files.occupant = some i ∧ fs'.files.occupant ≠ some i ∧
    ∃ c, Departs c ∧ fs.files.Allows name c ∧
      Relation.ReflTransGen (Happens name) (fs.change name c) fs'

/-- What is appended to `f` and not read yet. -/
def unreadOf (s : PollSite) (f : File Handle) : Bytes :=
  (s.world.files.content f.handle.inode).drop f.offset

/-- The poll in the world `fs` delivers all of `f`, as it was in `s`, before anything else. -/
def Saves (path : Bytes) (now : Int) (s : PollSite) (f : File Handle) (fs : Filesystem) : Prop :=
  ∃ s' ds es, work (pollKernel path now) record { s with world := fs } = .ok () s' ∧
    s'.client = s.client ++ ds ++ es ∧ (∀ d ∈ ds, d.file.handle.inode = f.handle.inode) ∧
      (∀ e ∈ es, e.file.handle.inode ≠ f.handle.inode) ∧
        ds.map Delivery.text = parts nl (s.self.line ++ unreadOf s f)

/-- The deliveries of a file that come before all others. -/
theorem deliveries_of_file {i : Nat} {ds es : List Delivery}
    (hds : ∀ d ∈ ds, d.file.handle.inode = i) (hes : ∀ e ∈ es, e.file.handle.inode ≠ i) :
    (ds ++ es).filter (·.file.handle.inode = i) = ds := by
  have hown : ds.filter (·.file.handle.inode = i) = ds :=
    List.filter_eq_self.mpr fun d hd => by simpa using hds d hd
  have hother : es.filter (·.file.handle.inode = i) = [] :=
    List.filter_eq_nil_iff.mpr fun e he => by simpa using hes e he
  rw [List.filter_append, hown, hother, List.append_nil]

/-- **What was not read before a rotation is lost.** -/
theorem saves_iff_of_rotated (h : Reachable (PollConstructed path) (PollStep path) s)
    {f : File Handle} (hfp : s.self.fp = some f) {fs : Filesystem}
    (hrotated : Rotated (cstr (getBaseName path)) f.handle.inode s.world fs) :
    Saves path now s f fs ↔ unreadOf s f = [] := by
  have hs : FollowsPath path s :=
    h.invariant (fun _ => follows_of_constructed) fun _ _ _ => follows_step
  have hgone := hrotated.2.1
  have hs' : FollowsPath path { s with world := fs } := ⟨hs.path, hs.identity, hs.line⟩
  obtain ⟨_, s', hrun, es, hclient, hes⟩ := (rotated_work_ends now hs' hfp hgone).exists_ok
  let last : List Delivery := if s.self.line = [] then [] else [⟨f, s.self.line⟩]
  have hlast : ∀ d ∈ last, d.file.handle.inode = f.handle.inode := by
    intro d hd
    dsimp only [last] at hd
    split at hd
    · cases hd
    · rw [List.mem_singleton.mp hd]
  have htexts : last.map Delivery.text = parts nl s.self.line := by
    rw [parts_of_notMem hs.line]
    by_cases hline : s.self.line = []
    · simp [last, hline]
    · simp [last, hline]
  constructor
  · rintro ⟨s₁, ds, es₁, hrun₁, hclient₁, hds, hes₁, hparts⟩
    cases hrun.symm.trans hrun₁
    -- The deliveries of the old file are the first ones, and there is the pending line only.
    have hsame : last = ds := by
      have hall : last ++ es = ds ++ es₁ := by
        rw [hclient, List.append_assoc, List.append_assoc] at hclient₁
        exact List.append_cancel_left hclient₁
      rw [← deliveries_of_file hlast hes, hall, deliveries_of_file hds hes₁]
    have hflat := congrArg List.flatten (htexts.symm.trans (hsame ▸ hparts))
    rw [flatten_parts, flatten_parts] at hflat
    exact (List.self_eq_append_right.mp hflat)
  · intro hnone
    refine ⟨s', last, es, hrun, hclient, hlast, hes, ?_⟩
    rw [hnone, List.append_nil]
    exact htexts

end

/-! ### A log that is rotated -/

/-- A watcher of an empty log. -/
def pollingEmpty : PollSite :=
  ⟨⟨lit "/log", some ⟨⟨0, 0, 0⟩, 0⟩, [], ⟨7, 0, 0⟩⟩, [], oneFile⟩

/-- A watcher of an empty file can be made. -/
theorem pollConstructed_pollingEmpty : PollConstructed (lit "/log") pollingEmpty :=
  ⟨7, oneFile, rfl, rfl⟩

/-- The log after one line, which no poll has read. -/
def pollingLine : PollSite :=
  { pollingEmpty with world := oneFile.change (lit "log") (.append 0 (lit "a\n")) }

/-- A line is appended to it. -/
theorem reachable_pollingLine :
    Reachable (PollConstructed (lit "/log")) (PollStep (lit "/log")) pollingLine :=
  .next _ (.start pollConstructed_pollingEmpty) (.changed (c := .append 0 (lit "a\n")) Nat.one_pos)

/-- The log is renamed, and there is no new one. -/
def renamed (fs : Filesystem) : Filesystem :=
  fs.change (lit "log") (.renameAway (some (lit "log.1")))

/-- The file is renamed away. -/
theorem rotated_renamed {fs : Filesystem} (h : fs.files.occupant = some 0) :
    Rotated (lit "log") 0 fs (renamed fs) := by
  have hgone : (renamed fs).files.occupant ≠ some 0 := by
    simp [renamed, Filesystem.change, Files.change, Files.depart, h]
  exact ⟨h, hgone, .renameAway (some (lit "log.1")), trivial, ⟨by simp [h], by decide⟩, .refl⟩

/-- The log after the start of a line, which a poll has read. -/
def pollingPartial : PollSite :=
  ⟨⟨lit "/log", some ⟨⟨0, 0, 0⟩, 1⟩, lit "a", ⟨9, 0, 0⟩⟩, [],
    oneFile.change (lit "log") (.append 0 (lit "a"))⟩

/-- A line is begun, and read. -/
theorem reachable_pollingPartial :
    Reachable (PollConstructed (lit "/log")) (PollStep (lit "/log")) pollingPartial := by
  have happended : Reachable (PollConstructed (lit "/log")) (PollStep (lit "/log"))
      { pollingEmpty with world := oneFile.change (lit "log") (.append 0 (lit "a")) } :=
    .next _ (.start pollConstructed_pollingEmpty)
      (.changed (c := .append 0 (lit "a")) Nat.one_pos)
  exact .next (.worked 8) happended (.worked rfl)

/-- The start of the line is delivered after the rotation. -/
theorem saves_iff_of_rotated_pollingPartial :
    Saves (lit "/log") 9 pollingPartial ⟨⟨0, 0, 0⟩, 1⟩ (renamed pollingPartial.world) :=
  (saves_iff_of_rotated reachable_pollingPartial rfl (rotated_renamed rfl)).mpr rfl

/-- The line is lost. -/
theorem not_saves :
    Reachable (PollConstructed (lit "/log")) (PollStep (lit "/log")) pollingLine ∧
      Rotated (lit "log") 0 pollingLine.world (renamed pollingLine.world) ∧
        ¬ Saves (lit "/log") 8 pollingLine ⟨⟨0, 0, 0⟩, 0⟩ (renamed pollingLine.world) := by
  refine ⟨reachable_pollingLine, rotated_renamed rfl, ?_⟩
  rintro ⟨s', ds, es, hrun, hclient, -, -, htexts⟩
  cases hrun
  have hnone : ([] : List Delivery) = ds ++ es := hclient
  have hds : ds = [] := (List.append_eq_nil_iff.mp hnone.symm).1
  have hparts : parts nl (lit "a\n") = [lit "a\n"] := by decide
  rw [hds] at htexts
  cases htexts.trans hparts

end Blockad.Proofs
