import Blockad.Model.Filesystem
import Blockad.Proofs.FileInvariants

/-!
# `Blockad.Proofs.ExceptionSafety`: a client that throws

The client records each text that it is passed, with the place of the text in its file, and whether
it threw. `work` clears the line after the client returns. So a text stays in the line when the
client throws (`Stuck`), and what is passed next begins with it (`Repeated`). Before that, all texts
are lines, and no two of them share a byte (`Tidy`).

* `rules_tidy`, `rules_delivering`: these cases, for each step of `work`.
* `passesLines`: the induction over a run.
* `lines_once`: each text is a line, and no byte is passed twice, exactly as long as no text comes
  after one for which the client threw.
-/

set_option autoImplicit false

namespace Blockad.Proofs

open Bytes Lifetimes Prog Runs Watcher

/-! ### The record -/

/-- A text that the client was passed: the number of the file and the offset after it. -/
structure Text where
  file : Option (Nat × Nat)
  text : Bytes
  threw : Bool

/-- A client with its record. -/
structure Told (α : Type) where
  client : α
  passed : List Text

/-- A client that records what it is passed. -/
def recorded {H α : Type} (callback : Bytes → EStateM Halt α Unit) :
    Callback (Nat × H) (Told α) := fun fp line told =>
  match callback line told.client with
  | .ok () client =>
    .ok () ⟨client, told.passed ++ [⟨fp.map fun f => (f.handle.1, f.offset), line, false⟩]⟩
  | .error h client =>
    .error h ⟨client, told.passed ++ [⟨fp.map fun f => (f.handle.1, f.offset), line, true⟩]⟩

/-- The text has the byte `k` of the file. -/
def Text.Covers (p : Text) (id k : Nat) : Prop :=
  ∃ stop, p.file = some (id, stop) ∧ stop ≤ k + p.text.length ∧ k < stop

/-- The texts have no byte in common. -/
def Separate (p q : Text) : Prop := ∀ id k, p.Covers id k → ¬ q.Covers id k

/-- At most one `'\n'`, and that one at the end. -/
def SingleLine (text : Bytes) : Prop := nl ∉ text.dropLast

/-- What the client should be passed. -/
def LinesOnce (passed : List Text) : Prop :=
  (∀ p ∈ passed, SingleLine p.text) ∧ passed.Pairwise Separate

/-- The client threw for the last text only, if at all. -/
def ThrewLast (passed : List Text) : Prop := passed.Pairwise fun p _ => p.threw = false

/-- What the invariant is about. -/
structure Progress (H : Type) where
  fp : Option (File (Nat × H))
  line : Bytes
  passed : List Text
  next : Nat

/-- The client never threw, and was passed lines without common bytes. -/
structure Clean (passed : List Text) : Prop where
  linesOnce : LinesOnce passed
  quiet : ∀ p ∈ passed, p.threw = false

namespace Progress

variable {H : Type}

/-- The line was read from the open file, after all texts of this file. -/
structure Placed (r : Progress H) : Prop where
  clean : Clean r.passed
  numbered : ∀ p ∈ r.passed, ∀ id stop, p.file = some (id, stop) → id < r.next
  earlier : ∀ p ∈ r.passed, ∀ f stop, r.fp = some f → p.file = some (f.handle.1, stop) →
    stop + r.line.length ≤ f.offset
  begun : ∀ f, r.fp = some f → f.handle.1 < r.next ∧ r.line.length ≤ f.offset
  none : r.fp = none → r.line = []

/-- The line has no end yet. -/
def Tidy (r : Progress H) : Prop := r.Placed ∧ nl ∉ r.line

/-- The line begins with the text for which the client threw. -/
structure StuckOn (r : Progress H) (before : List Text) (p : Text) (f : File (Nat × H))
    (stop : Nat) : Prop where
  passed : r.passed = before ++ [p]
  clean : Clean before
  single : SingleLine p.text
  separate : ∀ q ∈ before, Separate q p
  threw : p.threw = true
  ne_nil : p.text ≠ []
  fp : r.fp = some f
  file : p.file = some (f.handle.1, stop)
  le_offset : stop ≤ f.offset
  length_le : p.text.length ≤ stop
  start : f.offset + p.text.length = stop + r.line.length

def Stuck (r : Progress H) : Prop := ∃ before p f stop, r.StuckOn before p f stop

/-- A text came after one for which the client threw, and repeats it. -/
def Repeated (r : Progress H) : Prop := ¬ r.passed.Pairwise Separate ∧ ¬ ThrewLast r.passed

/-- The invariant. -/
def Delivered (r : Progress H) : Prop := r.Tidy ∨ r.Stuck ∨ r.Repeated

/-- The next byte of the file. -/
def takeByte (r : Progress H) (c : UInt8) : Progress H :=
  { r with
    fp := r.fp.map fun f => { f with offset := f.offset + 1 }
    line := r.line ++ [c] }

/-- The line is passed. -/
def pass (r : Progress H) (threw : Bool) : Progress H :=
  { r with passed := r.passed ++ [⟨r.fp.map fun f => (f.handle.1, f.offset), r.line, threw⟩] }

/-- The line is passed and cleared. -/
def deliver (r : Progress H) : Progress H := { r.pass false with line := [] }

/-! ### What each operation does to a reading -/

variable {r : Progress H} {f : File (Nat × H)}

/-- The line is after all texts. -/
theorem Placed.separate (h : r.Placed) (hfp : r.fp = some f) (threw : Bool) :
    ∀ p ∈ r.passed, Separate p ⟨some (f.handle.1, f.offset), r.line, threw⟩ := by
  rintro p hp id k ⟨stop, hfile, -, hk⟩ ⟨stop', hfile', hk', -⟩
  cases hfile'
  -- A byte of both would be before the line and in it.
  have hearlier := h.earlier p hp f stop hfp hfile
  dsimp only at hk'
  omega

/-- The next byte comes after all texts as well. -/
theorem Placed.takeByte (h : r.Placed) (hfp : r.fp = some f) (c : UInt8) :
    (r.takeByte c).Placed := by
  have hopen : (r.takeByte c).fp = some { f with offset := f.offset + 1 } := by
    unfold Progress.takeByte
    rw [hfp]
    rfl
  have hlen : (r.takeByte c).line.length = r.line.length + 1 := by
    unfold Progress.takeByte
    rw [List.length_append]
    rfl
  refine ⟨h.clean, h.numbered, fun p hp f' stop hf' hfile => ?_, fun f' hf' => ?_, fun hnone => ?_⟩
  · cases hopen.symm.trans hf'
    have hearlier := h.earlier p hp f stop hfp hfile
    rw [hlen]
    dsimp only
    omega
  · cases hopen.symm.trans hf'
    obtain ⟨hnext, hle⟩ := h.begun f hfp
    rw [hlen]
    exact ⟨hnext, Nat.succ_le_succ hle⟩
  · cases hopen.symm.trans hnone

/-- One more byte does not hide the text that the line begins with. -/
theorem Stuck.takeByte (h : r.Stuck) (c : UInt8) : (r.takeByte c).Stuck := by
  obtain ⟨before, p, f, stop, h⟩ := h
  refine ⟨before, p, { f with offset := f.offset + 1 }, stop, { h with
    fp := ?_, le_offset := Nat.le_succ_of_le h.le_offset, start := ?_ }⟩
  · unfold Progress.takeByte
    rw [h.fp]
    rfl
  -- The line gets longer at its end, and still begins where the text did.
  · have hstart := h.start
    show f.offset + 1 + p.text.length = stop + (r.line ++ [c]).length
    rw [List.length_append, List.length_singleton]
    omega

/-- What was repeated stays repeated. -/
theorem Repeated.pass (h : r.Repeated) (threw : Bool) : (r.pass threw).Repeated :=
  ⟨fun hpass => h.1 (pairwise_concat.mp hpass).1, fun hpass => h.2 (pairwise_concat.mp hpass).1⟩

/-- The next text repeats the one for which the client threw. -/
theorem Stuck.pass (h : r.Stuck) (threw : Bool) : (r.pass threw).Repeated := by
  obtain ⟨before, p, f, stop, h⟩ := h
  have hp : p ∈ r.passed := by
    rw [h.passed]
    exact List.mem_append_right _ (List.mem_singleton_self p)
  have hlen : 0 < p.text.length := List.length_pos_iff.mpr h.ne_nil
  constructor
  · intro hpass
    have hle := h.length_le
    have hstart := h.start
    have hoffset := h.le_offset
    have hseparate := (pairwise_concat.mp hpass).2 p hp
    rw [h.fp] at hseparate
    -- The last byte of the text.
    refine hseparate f.handle.1 (stop - 1) ⟨stop, h.file, by omega, by omega⟩ ?_
    exact ⟨f.offset, rfl, by dsimp only; omega, by omega⟩
  -- The client threw for a text that is not the last one.
  · intro hpass
    have hquiet := (pairwise_concat.mp hpass).2 p hp
    rw [h.threw] at hquiet
    cases hquiet

/-- The client throws for a line. -/
theorem Placed.stuck (h : r.Placed) (hfp : r.fp = some f) (hsingle : SingleLine r.line)
    (hline : r.line ≠ []) : (r.pass true).Stuck := by
  obtain ⟨-, hle⟩ := h.begun f hfp
  refine ⟨r.passed, ⟨some (f.handle.1, f.offset), r.line, true⟩, f, f.offset,
    ⟨?_, h.clean, hsingle, h.separate hfp true, rfl, hline, hfp, rfl, Nat.le_refl _, hle, rfl⟩⟩
  unfold Progress.pass
  rw [hfp]
  rfl

/-- The client returns. -/
theorem Placed.deliver (h : r.Placed) (hfp : r.fp = some f) (hsingle : SingleLine r.line) :
    r.deliver.Tidy := by
  have hpassed : r.deliver.passed = r.passed ++ [⟨some (f.handle.1, f.offset), r.line, false⟩] := by
    unfold Progress.deliver Progress.pass
    rw [hfp]
    rfl
  obtain ⟨hnext, hle⟩ := h.begun f hfp
  -- What holds of the old texts and of the new one holds of all.
  have hnew (P : Text → Prop) (hold : ∀ p ∈ r.passed, P p)
      (hlast : P ⟨some (f.handle.1, f.offset), r.line, false⟩) : ∀ p ∈ r.deliver.passed, P p := by
    rw [hpassed, List.forall_mem_append, List.forall_mem_singleton]
    exact ⟨hold, hlast⟩
  have hclean : Clean r.deliver.passed := by
    refine ⟨⟨hnew _ h.clean.linesOnce.1 hsingle, ?_⟩, hnew _ h.clean.quiet rfl⟩
    rw [hpassed]
    exact pairwise_concat.mpr ⟨h.clean.linesOnce.2, h.separate hfp false⟩
  refine ⟨⟨hclean, hnew _ h.numbered ?_, hnew _ ?_ ?_, ?_, fun _ => rfl⟩, List.not_mem_nil⟩
  · rintro id stop ⟨⟩
    exact hnext
  · intro p hp f' stop hf' hfile
    cases hfp.symm.trans hf'
    have hearlier := h.earlier p hp f stop hfp hfile
    show stop + 0 ≤ f.offset
    omega
  · intro f' stop hf' hfile
    cases hfp.symm.trans hf'
    cases hfile
    exact Nat.le_refl _
  · intro f' hf'
    cases hfp.symm.trans hf'
    exact ⟨hnext, Nat.zero_le _⟩

/-- `fopen`. -/
def opened (r : Progress H) (h : H) : Progress H :=
  { r with fp := some ⟨(r.next, h), 0⟩, next := r.next + 1 }

/-- `fclose`. -/
def closed (r : Progress H) : Progress H := { r with fp := none }

/-- A file that is opened begins a new line. -/
theorem Tidy.opened (h : r.Tidy) (hfp : r.fp = none) (handle : H) : (r.opened handle).Tidy := by
  obtain ⟨h, hline⟩ := h
  have hempty := h.none hfp
  refine ⟨⟨h.clean, fun p hp id stop hfile => ?_, fun p hp f stop hf hfile => ?_, fun f hf => ?_,
    nofun⟩, hline⟩
  · exact Nat.lt_succ_of_lt (h.numbered p hp id stop hfile)
  · -- No text has the new number
    cases hf
    exact absurd (h.numbered p hp _ stop hfile) (Nat.lt_irrefl _)
  -- Nothing was read from the new file.
  · cases hf
    refine ⟨Nat.lt_succ_self _, ?_⟩
    show r.line.length ≤ 0
    rw [hempty]
    exact Nat.le_refl 0

/-- A file that is closed without a line leaves nothing behind. -/
theorem Tidy.closed (h : r.Tidy) (hline : r.line = []) : r.closed.Tidy :=
  ⟨⟨h.1.clean, h.1.numbered, nofun, nofun, fun _ => hline⟩, h.2⟩

/-- The file is still open. -/
theorem Stuck.fp_ne_none (h : r.Stuck) : r.fp ≠ none := by
  obtain ⟨before, p, f, stop, h⟩ := h
  rw [h.fp]
  nofun

/-- The line is not empty. -/
theorem Stuck.line_ne_nil (h : r.Stuck) : r.line ≠ [] := by
  obtain ⟨before, p, f, stop, h⟩ := h
  have hlen : 0 < p.text.length := List.length_pos_iff.mpr h.ne_nil
  have hstart := h.start
  have hoffset := h.le_offset
  intro hline
  rw [hline, List.length_nil] at hstart
  omega

/-! ### What the cases mean -/

/-- The client threw for the last text only. -/
theorem Tidy.threwLast (h : r.Tidy) : ThrewLast r.passed :=
  List.pairwise_of_forall_mem_list fun p hp _ _ => h.1.clean.quiet p hp

/-- No text was repeated yet. -/
theorem Stuck.linesOnce (h : r.Stuck) : LinesOnce r.passed := by
  obtain ⟨before, p, f, stop, h⟩ := h
  rw [h.passed]
  refine ⟨?_, pairwise_concat.mpr ⟨h.clean.linesOnce.2, h.separate⟩⟩
  rw [List.forall_mem_append, List.forall_mem_singleton]
  exact ⟨h.clean.linesOnce.1, h.single⟩

/-- The client threw for the last text only. -/
theorem Stuck.threwLast (h : r.Stuck) : ThrewLast r.passed := by
  obtain ⟨before, p, f, stop, h⟩ := h
  rw [h.passed]
  refine pairwise_concat.mpr ⟨?_, h.clean.quiet⟩
  exact List.pairwise_of_forall_mem_list fun p hp _ _ => h.clean.quiet p hp

/-- **The texts are right exactly if the client threw for the last one only.** -/
theorem linesOnce_iff (h : r.Delivered) : LinesOnce r.passed ↔ ThrewLast r.passed := by
  obtain h | h | h := h
  · exact iff_of_true h.1.clean.linesOnce h.threwLast
  · exact iff_of_true h.linesOnce h.threwLast
  -- The repeated text fails both.
  · exact iff_of_false (fun hlines => h.1 hlines.2) h.2

/-- A client that never threw leaves nothing behind. -/
theorem tidy_of_quiet (h : r.Delivered) (hquiet : ∀ p ∈ r.passed, p.threw = false) : r.Tidy := by
  obtain h | h | h := h
  · exact h
  · obtain ⟨before, p, f, stop, h⟩ := h
    have hp : p ∈ r.passed := by
      rw [h.passed]
      exact List.mem_append_right _ (List.mem_singleton_self p)
    exact absurd (hquiet p hp) (by rw [h.threw]; nofun)
  · exact absurd (List.pairwise_of_forall_mem_list fun p hp _ _ => hquiet p hp) h.2

end Progress

/-! ### The rules -/

section
variable {H ω α W : Type}

/-- The progress of a watcher. -/
def progressOf (s : TrackedCall H ω (Told α) W) : Progress H :=
  ⟨s.self.fp, s.self.line, s.client.passed, s.world.next⟩

/-- The invariant. -/
def Delivering (s : TrackedCall H ω (Told α) W) : Prop := (progressOf s).Delivered

/-- The line is passed, or the client throws. -/
theorem ends_recorded {callback : Bytes → EStateM Halt α Unit} {s : TrackedCall H ω (Told α) W}
    (inv after : Progress H → Prop) (hinv : inv (progressOf s).deliver)
    (hafter : after ((progressOf s).pass true)) :
    Ends (fun _ s' => inv (progressOf { s' with self := clearLine s'.self }))
      (fun _ s' => after (progressOf s')) (processLine (recorded callback) s) := by
  unfold processLine recorded
  cases callback s.self.line s.client.client with
  | ok u client => exact hinv
  | error e client => exact hafter

/-- A line is passed and cleared, or the client throws and it stays. -/
theorem ends_placed {callback : Bytes → EStateM Halt α Unit} {s : TrackedCall H ω (Told α) W}
    {f : File (Nat × H)} (h : (progressOf s).Placed) (hfp : s.self.fp = some f)
    (hsingle : SingleLine s.self.line) (hline : s.self.line ≠ []) :
    Ends (fun _ s' => (progressOf { s' with self := clearLine s'.self }).Tidy)
      (fun _ s' => (progressOf s').Tidy ∨ (progressOf s').Stuck)
      (processLine (recorded callback) s) :=
  ends_recorded Progress.Tidy (fun r => r.Tidy ∨ r.Stuck) (h.deliver hfp hsingle)
    (.inr (h.stuck hfp hsingle hline))

/-- After a repeated text, all that follows it comes too late. -/
theorem ends_repeated {callback : Bytes → EStateM Halt α Unit} {s : TrackedCall H ω (Told α) W}
    (h : ∀ threw, ((progressOf s).pass threw).Repeated) :
    Ends (fun _ s' => Delivering { s' with self := clearLine s'.self }) (fun _ => Delivering)
      (processLine (recorded callback) s) :=
  ends_recorded Progress.Delivered Progress.Delivered (.inr (.inr (h false)))
    (.inr (.inr (h true)))

/-- While the client does not throw, no case but the first comes up. -/
theorem rules_tidy (callback : Bytes → EStateM Halt α Unit) :
    Rules (recorded callback) (fun s : TrackedCall H ω (Told α) W => (progressOf s).Tidy)
      (fun s => (progressOf s).Tidy ∨ (progressOf s).Stuck) where
  own _ _ hs := hs
  world _ _ hs := hs
  used _ _ hs _ := hs
  opened _ h hs hfp := hs.opened hfp h
  weaken _ hs := .inl hs
  byte s f c hs hfp hc := by
    -- Only a newline would end the line, and it is the other case.
    refine ⟨hs.1.takeByte hfp c, ?_⟩
    show nl ∉ s.self.line ++ [c]
    rw [List.mem_append, List.mem_singleton, not_or]
    exact ⟨hs.2, Ne.symm hc⟩
  newline s f hs hfp := by
    have hopen : (takeByte nl s.self).fp = some { f with offset := f.offset + 1 } := by
      unfold takeByte
      rw [hfp]
      rfl
    have hsingle : SingleLine (s.self.line ++ [nl]) := by
      unfold SingleLine
      rw [List.dropLast_concat]
      exact hs.2
    exact ends_placed (hs.1.takeByte hfp nl) hopen hsingle (List.concat_ne_nil _ _)
  partialLine s f hs hfp hline :=
    ends_placed hs.1 hfp (fun hmem => hs.2 (List.dropLast_subset _ hmem)) hline
  closed _ _ hs _ hline := hs.closed hline

/-- The rules for all runs. -/
theorem rules_delivering (callback : Bytes → EStateM Halt α Unit) :
    Rules (recorded callback) (Delivering : TrackedCall H ω (Told α) W → Prop) Delivering where
  own _ _ hs := hs
  world _ _ hs := hs
  used _ _ hs _ := hs
  opened s h hs hfp := by
    obtain hs | hs | hs := hs
    · exact .inl (hs.opened hfp h)
    · exact absurd hfp hs.fp_ne_none
    · exact .inr (.inr hs)
  weaken _ := id
  byte s f c hs hfp hc := by
    obtain hs | hs | hs := hs
    · exact .inl ((rules_tidy callback).byte s f c hs hfp hc)
    · exact .inr (.inl (hs.takeByte c))
    · exact .inr (.inr hs)
  newline s f hs hfp := by
    obtain hs | hs | hs := hs
    · refine ((rules_tidy callback).newline s f hs hfp).mono (fun _ _ hs' => .inl hs') ?_
      exact fun _ _ hs' => hs'.imp_right .inl
    · exact ends_repeated (hs.takeByte nl).pass
    · exact ends_repeated (Progress.Repeated.pass (r := (progressOf s).takeByte nl) hs)
  partialLine s f hs hfp hline := by
    obtain hs | hs | hs := hs
    · refine ((rules_tidy callback).partialLine s f hs hfp hline).mono (fun _ _ hs' => .inl hs') ?_
      exact fun _ _ hs' => hs'.imp_right .inl
    · exact ends_repeated hs.pass
    · exact ends_repeated hs.pass
  closed s f hs hfp hline := by
    obtain hs | hs | hs := hs
    · exact .inl (hs.closed hline)
    · exact absurd hline hs.line_ne_nil
    · exact .inr (.inr hs)

end

/-! ### Runs -/

section
variable {H ω α W : Type}

/-- A new watcher, whose client was told nothing. -/
def Untold (construct : EStateM Halt (Tracked W) (Watcher (Nat × H) ω))
    (s : TrackedCall H ω (Told α) W) : Prop :=
  NewlyMade construct s ∧ s.client.passed = []

/-- The client has not thrown. -/
def Quietly (s : TrackedCall H ω (Told α) W) (_ : Use W) : Prop :=
  ∀ p ∈ s.client.passed, p.threw = false

/-- What a new watcher is like. -/
def LineEmpty (s : TrackedCall H ω Unit W) : Prop :=
  s.self.line = [] ∧ ∀ f, s.self.fp = some f → f.handle.1 < s.world.next

/-- A watcher that was just made has no line. -/
theorem opens_lineEmpty : Opens (LineEmpty : TrackedCall H ω Unit W → Prop) where
  own _ _ hs := hs
  world _ _ hs := hs
  used _ _ hs _ := hs
  opened s h hs _ := by
    refine ⟨hs.1, fun f hf => ?_⟩
    cases hf
    exact Nat.lt_succ_self _

/-- Nothing of it was passed. -/
theorem tidy_of_lineEmpty {s : TrackedCall H ω (Told α) W} (h : LineEmpty ⟨s.self, (), s.world⟩)
    (hpassed : s.client.passed = []) : (progressOf s).Tidy := by
  obtain ⟨hline, hnext⟩ := h
  dsimp only at hline hnext
  have hnone (P : Text → Prop) : ∀ p ∈ s.client.passed, P p := by
    rw [hpassed]
    exact fun _ hp => absurd hp List.not_mem_nil
  have hclean : Clean s.client.passed := by
    refine ⟨⟨hnone _, ?_⟩, hnone _⟩
    rw [hpassed]
    exact .nil
  refine ⟨⟨hclean, hnone _, hnone _, fun f hf => ⟨hnext f hf, ?_⟩, fun _ => hline⟩, ?_⟩
  · show s.self.line.length ≤ _
    rw [hline]
    exact Nat.zero_le _
  · show nl ∉ s.self.line
    rw [hline]
    exact List.not_mem_nil

/-- The lines of a watcher in use: in runs that end with the first exception of the client, and in
all runs. -/
structure PassesLines (construct : EStateM Halt (Tracked W) (Watcher (Nat × H) ω))
    (work : Prog (Nat × H) ω (Told α) (Tracked W) Unit) : Prop where
  quiet : ∀ s, Reachable (Untold construct) (Guarded (InUse work) Quietly) s →
    LinesOnce s.client.passed
  iff : ∀ s, Reachable (Untold construct) (InUse work) s →
    (LinesOnce s.client.passed ↔ ThrewLast s.client.passed)

/-- Both classes keep the invariant. -/
theorem passesLines {construct : EStateM Halt (Tracked W) (Watcher (Nat × H) ω)}
    {work : Prog (Nat × H) ω (Told α) (Tracked W) Unit} (callback : Bytes → EStateM Halt α Unit)
    (hconstruct : ∀ world w t, construct (Tracked.start world) = .ok w t → LineEmpty ⟨w, (), t⟩)
    (hwork : ∀ {inv after : TrackedCall H ω (Told α) W → Prop},
      Rules (recorded callback) inv after → Preserves inv after work) :
    PassesLines construct work := by
  have htidy : ∀ s : TrackedCall H ω (Told α) W, Untold construct s → (progressOf s).Tidy := by
    rintro s ⟨⟨world, hrun⟩, hpassed⟩
    exact tidy_of_lineEmpty (hconstruct world _ _ hrun) hpassed
  have hreach : ∀ s, Reachable (Untold construct) (InUse work) s → Delivering s := fun s =>
    invariant_of_reachable (rules_delivering callback).toFramed (fun s hs => .inl (htidy s hs))
      (hwork (rules_delivering callback))
  refine ⟨fun s h => ?_, fun s h => Progress.linesOnce_iff (hreach s h)⟩
  cases h with
  | start h => exact (htidy s h).1.clean.linesOnce
  -- Before its last step, the run is one without an exception of the client.
  | next i h hstep =>
    have hbefore := Progress.tidy_of_quiet (hreach _ h.of_guarded) hstep.1
    have hrules := rules_tidy (H := H) (ω := ω) (W := W) callback
    obtain hs | hs := ends_of_inUse hrules.toFramed hrules.weaken (hwork hrules) hbefore hstep.2
    · exact hs.1.clean.linesOnce
    · exact hs.linesOnce

end

/-- Each text is a line, and no byte is passed twice, as long as `work` is not called again after
the client threw. If it is, the next text has the bytes of the last one. -/
theorem lines_once {H α W : Type} (os : Syscalls H W) (pollOs : PollSyscalls H W)
    (callback : Bytes → EStateM Halt α Unit) (path : Bytes) :
    PassesLines (InotifyWatcher.construct (track os) path)
        (InotifyWatcher.workWith logGetc (track os) (recorded callback)) ∧
      PassesLines (PollingWatcher.construct (trackPoll pollOs) path)
        (PollingWatcher.workWith logGetc (trackPoll pollOs) (recorded callback)) := by
  constructor
  · refine passesLines callback (fun world w t hrun => ?_) fun h => ?_
    · refine holds_of_construct os opens_lineEmpty (fun s f offset hs hfp => ?_) (fun _ => ?_) hrun
      · refine ⟨hs.1, fun f' hf' => ?_⟩
        cases hf'
        exact hs.2 f hfp
      · exact ⟨rfl, nofun⟩
    · exact preserves_work os _ h
  · refine passesLines callback (fun world w t hrun => ?_) fun h => ?_
    · exact holds_of_poll_construct pollOs opens_lineEmpty (fun _ => ⟨rfl, nofun⟩) hrun
    · exact preserves_poll_work pollOs _ h

/-- The client throws for the first line. The second text is that line once more, and the next one
after it. -/
theorem not_lines_once :
    let os := trackPoll (pollKernel (lit "/log") 7)
    let callback : Bytes → EStateM Halt Nat Unit := fun _ n =>
      if n = 0 then .error (.thrown (.systemError (lit "creating subprocess") .EAGAIN)) 1
      else .ok () (n + 1)
    ∃ s, Reachable (Untold (PollingWatcher.construct os (lit "/log")))
        (InUse (PollingWatcher.workWith logGetc os (recorded callback))) s ∧
      s.client.passed =
        [⟨some (0, 2), lit "a\n", true⟩, ⟨some (0, 4), lit "a\nb\n", false⟩] ∧
      ¬ LinesOnce s.client.passed := by
  intro os callback
  let fs : Filesystem := ⟨⟨fun _ => lit "a\nb\n", 1, some 0, [], 0, fun _ => none, []⟩,
    ⟨[], dirWd + 1, []⟩⟩
  have hstart : Untold (PollingWatcher.construct os (lit "/log"))
      ⟨⟨lit "/log", some ⟨(0, ⟨0, 0, 4⟩), 0⟩, [], ⟨7, 0, 0⟩⟩, ⟨0, []⟩,
        ⟨fs, 1, [.acquired 0, .used 0]⟩⟩ := ⟨⟨fs, rfl⟩, rfl⟩
  refine ⟨_, .next .worked (.next .worked (.start hstart) (.caught rfl)) (.worked rfl), rfl, ?_⟩
  rintro ⟨hsingle, -⟩
  have hmerged : ¬ SingleLine (lit "a\nb\n") := by
    unfold SingleLine
    decide
  exact hmerged (hsingle ⟨some (0, 4), lit "a\nb\n", false⟩
    (List.mem_cons_of_mem _ (List.mem_singleton_self _)))

end Blockad.Proofs
