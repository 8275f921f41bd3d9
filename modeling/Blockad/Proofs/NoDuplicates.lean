import Blockad.Proofs.Rotation

/-!
# `Blockad.Proofs.NoDuplicates`: when no byte is delivered twice

The watcher opens the path again at each directory event about its name. Such an event may be
about a change that happened before the last opening, and then the file that is still there is
read from its start again.

* `Apart`: the invariant. The calls of one period are about disjoint parts of the file, in
  ascending order, and the pending line comes after them.
* `no_duplicates`: in every run in which no directory event finds a file at the path that was
  read already, no byte of a period is delivered twice.
* `not_noDuplicates_rotation`: one rotation, handled at once, delivers a line twice.
-/

set_option autoImplicit false

namespace Blockad.Proofs

open Bytes Runs Watcher InotifyWatcher Monitored

/-! ### Positions -/

/-- The byte at `pos` of the file of the period is in the text. -/
def covers (period pos : Nat) (d : Delivery) : Bool :=
  d.period = period ∧ d.first ≤ pos ∧ pos < d.file.offset

/-- No byte of a period was delivered more than once. -/
def NoDuplicates (s : Monitored) : Prop :=
  ∀ period pos, s.call.client.countP (covers period pos) ≤ 1

/-- The later delivery is about a later part, if it is of the same period. -/
def Before (d e : Delivery) : Prop := d.period = e.period → d.file.offset ≤ e.first

/-- A position is not read again later in the same period. -/
theorem not_covers_of_before {d e : Delivery} (h : Before d e) {period pos : Nat}
    (hd : covers period pos d = true) : covers period pos e = false := by
  simp only [covers, decide_eq_true_eq, decide_eq_false_iff_not] at hd ⊢
  rintro ⟨he, hle, -⟩
  have hdisjoint := h (hd.1.trans he.symm)
  omega

/-- Deliveries that are apart cover a position once. -/
theorem countP_covers_le_one {log : List Delivery} (h : log.Pairwise Before) (period pos : Nat) :
    log.countP (covers period pos) ≤ 1 := by
  induction h with
  | nil => simp
  | @cons d log hd _ ih =>
    rw [List.countP_cons]
    split
    · rename_i hcovers
      have hnone : log.countP (covers period pos) = 0 := by
        rw [List.countP_eq_zero]
        exact fun e he => by simp [not_covers_of_before (hd e he) hcovers]
      omega
    · exact ih

/-! ### The invariant -/

/-- The calls of each period are apart, and no period is still to come. -/
structure Apart (c : Site) : Prop where
  pairwise : c.client.Pairwise Before
  past : ∀ d ∈ c.client, d.period ≤ c.world.files.period
  openPast : ∀ f, c.self.fp = some f → f.handle.period ≤ c.world.files.period
  pending : ∀ f, c.self.fp = some f → ∀ d ∈ c.client, d.period = f.handle.period →
    d.file.offset ≤ f.offset - c.self.line.length

/-- A delivery after all the others. -/
theorem pairwise_push {log : List Delivery} {e : Delivery} (h : log.Pairwise Before)
    (he : ∀ d ∈ log, Before d e) : (log ++ [e]).Pairwise Before := by
  rw [List.pairwise_append]
  refine ⟨h, List.pairwise_singleton _ _, ?_⟩
  intro d hd e' he'
  rw [List.mem_singleton] at he'
  exact he' ▸ he d hd

/-- The next byte keeps the calls apart. -/
theorem apart_byte {c : Site} {r : Reading} (b : UInt8) (h : Apart (withReading c r)) :
    Apart (withReading c (r.byte b)) := by
  have hopen := h.openPast r.file rfl
  have hpending := h.pending r.file rfl
  by_cases hb : b = nl
  · subst hb
    rw [Reading.byte_nl]
    -- The line that the byte completes is delivered.
    refine ⟨pairwise_push h.pairwise ?_, ?_, ?_, ?_⟩
    · intro d hd hperiod
      have hle := hpending d hd hperiod
      simp only [Delivery.first, List.length_append, List.length_singleton]
      change d.file.offset ≤ r.file.offset - r.line.length at hle
      omega
    · intro d hd
      rcases List.mem_append.mp hd with hd | hd
      · exact h.past d hd
      · rw [List.mem_singleton.mp hd]
        exact hopen
    · rintro f ⟨⟩
      exact hopen
    · rintro f ⟨⟩ d hd hperiod
      rcases List.mem_append.mp hd with hd | hd
      · have hle := hpending d hd hperiod
        change d.file.offset ≤ r.file.offset - r.line.length at hle
        simp only [withReading, List.length_nil]
        omega
      · rw [List.mem_singleton.mp hd]
        exact le_rfl
  · rw [Reading.byte_of_ne hb]
    -- The offset and the pending line grow together.
    refine ⟨h.pairwise, h.past, ?_, ?_⟩
    · rintro f ⟨⟩
      exact hopen
    · rintro f ⟨⟩ d hd hperiod
      have hle := hpending d hd hperiod
      simp only [withReading, List.length_append, List.length_singleton] at hle ⊢
      omega

/-- Reading goes on where it stopped. -/
theorem apart_readAll {c : Site} (h : Apart c) : Apart (readAll c) :=
  readAll_invariant (fun _ b hr _ => apart_byte b hr) h

/-- Closing delivers the line that was begun. -/
theorem apart_shut {c : Site} (h : Apart c) : Apart (shut c) := by
  unfold shut
  split
  · exact h
  · rename_i f hfp
    refine ⟨?_, ?_, nofun, nofun⟩
    · dsimp only
      split
      · exact h.pairwise
      · -- The pending line is delivered, after all the others of its period.
        exact pairwise_push h.pairwise fun d hd => h.pending f hfp d hd
    · intro d hd
      dsimp only at hd ⊢
      rw [period_close]
      split at hd
      · exact h.past d hd
      · rcases List.mem_append.mp hd with hd | hd
        · exact h.past d hd
        · rw [List.mem_singleton.mp hd]
          exact h.openPast f hfp

/-- No byte of the file at the path was read in its current period: none was delivered, and
none is pending. -/
def Unread (c : Site) : Prop :=
  (∀ d ∈ c.client, d.period ≠ c.world.files.period) ∧
    ∀ f ∈ c.self.fp, f.handle.period = c.world.files.period → c.self.line = []

instance (c : Site) : Decidable (Unread c) := inferInstanceAs (Decidable (_ ∧ _))

/-- A file that was not read in its period is not read by closing another one. -/
theorem ne_period_of_shut {c : Site} (h : Unread c) :
    ∀ d ∈ (shut c).client, d.period ≠ c.world.files.period := by
  unfold shut
  split
  · exact h.1
  · rename_i f hfp
    dsimp only
    intro d hd
    split at hd
    · exact h.1 d hd
    · rename_i hline
      -- A pending line that is delivered here is not of the current period.
      rcases List.mem_append.mp hd with hd | hd
      · exact h.1 d hd
      · rw [List.mem_singleton.mp hd]
        exact fun hperiod => hline (by simp [h.2 f hfp hperiod])

/-- Opening begins at the start of a file that was not read. -/
theorem apart_reopen {c : Site} (h : Apart c)
    (hunread : c.world.files.occupant.isSome → ∀ d ∈ c.client, d.period ≠ c.world.files.period) :
    Apart (reopen c) := by
  unfold reopen
  split
  · rename_i i hfp hocc
    refine ⟨h.pairwise, h.past, ?_, ?_⟩
    · rintro f ⟨⟩
      exact le_rfl
    · rintro f ⟨⟩ d hd hperiod
      exact absurd hperiod (hunread (by rw [hocc]; rfl) d hd)
  · exact h

/-! ### Runs -/

/-- A directory event does not find a file at the path that was read already. -/
abbrev FindsUnread : Monitored → Action → Prop :=
  WhenAboutName fun c => c.world.files.occupant.isSome → Unread c

/-- The periods are numbered in order. -/
theorem period_le_change (fs : Files) (c : Change) : fs.period ≤ (fs.change c).period := by
  have hdepart : fs.depart.period = fs.period := by
    unfold Files.depart
    split <;> rfl
  cases c <;> simp [Files.change, Files.newInode, Files.arrive, hdepart]

/-- A new watcher has delivered nothing. -/
theorem apart_of_constructed {path : Bytes} {s : Monitored} (h : Constructed path s) :
    Apart s.call := by
  obtain ⟨fs, -, -, -, hclient, hworld, hself⟩ := constructed_cases h
  refine ⟨by rw [hclient]; exact .nil, by simp [hclient], ?_, by simp [hclient]⟩
  intro f hf
  -- The file was opened in the first period.
  rw [hself] at hf
  obtain ⟨f', hf', rfl⟩ := Option.map_eq_some_iff.mp hf
  rw [fp_reopen rfl] at hf'
  obtain ⟨i, -, rfl⟩ := Option.map_eq_some_iff.mp hf'
  rw [hworld, files_reopen]
  exact le_rfl

/-- **The step lemma.** -/
theorem apart_step {path : Bytes} {s s' : Monitored} {a : Action}
    (hs : Wired path s.call ∧ Apart s.call) (h : Guarded (Transition path) FindsUnread s a s') :
    Wired path s'.call ∧ Apart s'.call := by
  obtain ⟨hcond, hstep⟩ := h
  refine ⟨wired_step hs.1 hstep, ?_⟩
  obtain ⟨hwired, hapart⟩ := hs
  cases hstep with
  | @changed c _ =>
    -- A new period is later than all that were read.
    have hle := period_le_change s.call.world.files c
    exact ⟨hapart.pairwise, fun d hd => (hapart.past d hd).trans hle,
      fun f hf => (hapart.openPast f hf).trans hle, hapart.pending⟩
  | read _ _ _ => exact ⟨hapart.pairwise, hapart.past, hapart.openPast, hapart.pending⟩
  | @handled event rest call hbatch hrun =>
    rcases handled_cases hwired hrun with rfl | ⟨-, rfl | rfl⟩ | ⟨habout, rfl⟩
    · exact hapart
    · exact apart_readAll hapart
    · exact apart_shut (apart_readAll hapart)
    · -- The only case that reads from the start again.
      refine apart_readAll (apart_reopen (apart_shut hapart) ?_)
      rw [files_shut]
      have hhead : event ∈ s.batch.head? := by rw [hbatch]; rfl
      exact fun hoccupant => ne_period_of_shut (hcond event hhead habout hoccupant)

/-- **No byte is delivered twice**, in every run in which no directory event finds a file at
the path that was read already. -/
theorem no_duplicates {path : Bytes} {s : Monitored}
    (h : Reachable (Constructed path) (Guarded (Transition path) FindsUnread) s) :
    NoDuplicates s := by
  have hinv : Wired path s.call ∧ Apart s.call :=
    h.invariant (fun _ hs => ⟨wired_of_constructed hs, apart_of_constructed hs⟩)
      fun _ _ _ => apart_step
  exact countP_covers_le_one hinv.2.pairwise

/-- A rotation whose events are handled one by one: a line in the old file, the departure of this
file, the new file, and then a line in the new file. -/
def slowRotation : List Action :=
  [.changed (.append 0 (lit "a\n")), .read 1, .handled, .changed (.renameAway none), .read 2,
    .handled, .handled, .changed .create, .read 2, .handled, .handled,
    .changed (.append 1 (lit "b\n")), .read 1, .handled]

/-- The lines of both files are delivered, each in its own period. -/
theorem no_duplicates_slowRotation :
    ∃ s, s.call.client.map (fun d => (d.period, d.text)) = [(0, lit "a\n"), (1, lit "b\n")] ∧
      NoDuplicates s := by
  have hrun : (execAll (lit "/log") FindsUnread watchingOneFile slowRotation).map
      (fun s => s.call.client.map fun d => (d.period, d.text)) =
        some [(0, lit "a\n"), (1, lit "b\n")] := by decide +kernel
  obtain ⟨s, hs, hdelivered⟩ := Option.map_eq_some_iff.mp hrun
  have hreach := reachable_of_execAll (.start constructed_watchingOneFile) hs
  exact ⟨s, hdelivered, no_duplicates hreach⟩

/-- One rotation, with a line in the new file, and all its events handled at once. -/
def rotation : List Action :=
  [.changed (.renameAway none), .changed .create, .changed (.append 1 (lit "a\n")), .read 3,
    .handled, .handled, .handled]

/-- The second directory event of the rotation reads the line again. -/
theorem not_noDuplicates_rotation :
    ∃ s, Reachable (Constructed (lit "/log")) (Transition (lit "/log")) s ∧ ¬ NoDuplicates s := by
  have hrun : (execAll (lit "/log") (fun _ _ => True) watchingOneFile rotation).map
      (fun s => s.call.client.countP (covers 1 0)) = some 2 := by decide +kernel
  obtain ⟨s, hs, htwice⟩ := Option.map_eq_some_iff.mp hrun
  have hreach := reachable_of_execAll (.start constructed_watchingOneFile) hs
  refine ⟨s, hreach.of_guarded, ?_⟩
  intro h
  have honce := h 1 0
  omega

end Blockad.Proofs
