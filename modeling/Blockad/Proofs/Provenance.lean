import Blockad.Proofs.NoLostLines

/-!
# `Blockad.Proofs.Provenance`: where the texts of `processLine` come from

A watcher holds the start of a line in memory while its file is renamed, replaced and unlinked,
and events about older files are still on their way. Still no text is put together from two files,
cut out of the middle of a line, or changed.

* `Genuine`: the text is a stretch of its file, from the start of a line on, with a newline at its
  end only.
* `Honest`: the invariant, of either watcher. Its rules are one for each operation.
* `texts_genuine`: every text of every run of an `InotifyWatcher` is genuine.
-/

set_option autoImplicit false

namespace Blockad.Proofs

open Bytes Lines Prog Runs Watcher InotifyWatcher Monitored

/-! ### Genuine texts -/

/-- A text can start here: at the start of the file, at its end when it was opened, or after a
newline. -/
def Begins (content : Bytes) (h : Handle) (a : Nat) : Prop :=
  a = 0 ∨ a = h.openLen ∨ content[a - 1]? = some nl

/-- The text is a line of the file, or the part of one that there was. -/
structure Genuine (content : Bytes) (d : Delivery) : Prop where
  nonempty : d.text ≠ []
  le_offset : d.text.length ≤ d.file.offset
  le_length : d.file.offset ≤ content.length
  text_eq : d.text = slice content d.first d.file.offset
  inner : ∀ i, i + 1 < d.file.offset → d.first ≤ i → content[i]? ≠ some nl
  start : Begins content d.file.handle d.first

/-- A line begins where it did, when more is appended. -/
theorem Begins.append {content : Bytes} {h : Handle} {a : Nat} (ha : Begins content h a)
    (more : Bytes) : Begins (content ++ more) h a := by
  refine ha.imp_right fun ha => ha.imp_right fun hnl => ?_
  rw [List.getElem?_append_left (List.getElem?_eq_some_iff.mp hnl).1]
  exact hnl

/-- A file that grows keeps its lines. -/
theorem Genuine.append {content : Bytes} {d : Delivery} (h : Genuine content d) (more : Bytes) :
    Genuine (content ++ more) d where
  nonempty := h.nonempty
  le_offset := h.le_offset
  le_length := h.le_length.trans (by simp)
  text_eq := by
    rw [slice_append h.le_length]
    exact h.text_eq
  inner i hi hle := by
    have hlt : i < content.length := by
      have hlen := h.le_length
      omega
    rw [List.getElem?_append_left hlt]
    exact h.inner i hi hle
  start := h.start.append more

/-! ### The invariant -/

/-- The open file with the pending line, and the texts so far. -/
structure Honest (fp : Option (File Handle)) (line : Bytes) (log : List Delivery) (fs : Files) :
    Prop where
  placed : Placed fs
  idle : fp = none → line = []
  isOpen : ∀ f, fp = some f → OpenKept log fs f line
  begins : ∀ f, fp = some f →
    Begins (fs.content f.handle.inode) f.handle (f.offset - line.length)
  past : ∀ d ∈ log, d.file.handle.inode < fs.freshInode
  genuine : ∀ d ∈ log, Genuine (fs.content d.file.handle.inode) d

namespace Honest

variable {fp : Option (File Handle)} {line : Bytes} {log : List Delivery} {fs : Files}

/-- One more text. -/
theorem push_log {f : File Handle} (h : Honest fp line log fs)
    (hlt : f.handle.inode < fs.freshInode) {text : Bytes}
    (htext : Genuine (fs.content f.handle.inode) ⟨f, text⟩) :
    (∀ d ∈ log ++ [⟨f, text⟩], d.file.handle.inode < fs.freshInode) ∧
      ∀ d ∈ log ++ [⟨f, text⟩], Genuine (fs.content d.file.handle.inode) d := by
  constructor
  · intro d hd
    rcases List.mem_append.mp hd with hd | hd
    · exact h.past d hd
    · rw [List.mem_singleton.mp hd]
      exact hlt
  · intro d hd
    rcases List.mem_append.mp hd with hd | hd
    · exact h.genuine d hd
    · rw [List.mem_singleton.mp hd]
      exact htext

/-- The pending line would be a genuine text. -/
theorem pending {f : File Handle} (h : Honest (some f) line log fs) (hline : line ≠ []) :
    Genuine (fs.content f.handle.inode) ⟨f, line⟩ := by
  obtain ⟨-, hfollows, -, -⟩ := h.isOpen f rfl
  refine ⟨hline, hfollows.line_le, hfollows.le_length, hfollows.line_eq, ?_, h.begins f rfl⟩
  intro i hi hle
  exact hfollows.clean i (by dsimp only at hi; omega) hle

/-- **The next byte.** -/
theorem byte {r : Reading} {b : UInt8} (h : Honest (some r.file) r.line r.log fs)
    (hb : (fs.content r.file.handle.inode)[r.file.offset]? = some b) :
    Honest (some (r.byte b).file) (r.byte b).line (r.byte b).log fs := by
  obtain ⟨hlt, hfollows, hpresent, hleft⟩ := h.isOpen r.file rfl
  have hnext := hfollows.byte hb
  have hopen : OpenKept (r.byte b).log fs (r.byte b).file (r.byte b).line := by
    rw [Reading.file_byte] at hnext ⊢
    exact ⟨hlt, hnext, hpresent, hleft⟩
  have hline := hfollows.line_le
  have hbegins := h.begins r.file rfl
  by_cases hnl : b = nl
  · subst hnl
    rw [Reading.byte_nl] at hopen ⊢
    -- The newline completes the pending line.
    have hfirst : r.file.offset + 1 - (r.line ++ [nl]).length = r.file.offset - r.line.length := by
      simp
    have htext : Genuine (fs.content r.file.handle.inode)
        ⟨{ r.file with offset := r.file.offset + 1 }, r.line ++ [nl]⟩ := by
      refine ⟨by simp, by simpa using hline, hopen.follows.le_length, ?_, ?_, ?_⟩
      · dsimp only [Delivery.first]
        rw [hfirst, slice_succ (Nat.sub_le _ _) hb, ← hfollows.line_eq]
      · intro i hi hle
        dsimp only [Delivery.first] at hi hle
        rw [hfirst] at hle
        exact hfollows.clean i (by omega) hle
      · dsimp only [Delivery.first]
        rw [hfirst]
        exact hbegins
    obtain ⟨hpast, hgenuine⟩ := h.push_log (f := { r.file with offset := r.file.offset + 1 })
      hlt htext
    refine ⟨h.placed, nofun, ?_, ?_, hpast, hgenuine⟩
    · rintro f ⟨⟩
      exact hopen
    · rintro f ⟨⟩
      exact .inr (.inr hb)
  · rw [Reading.byte_of_ne hnl] at hopen ⊢
    have hfirst : r.file.offset + 1 - (r.line ++ [b]).length = r.file.offset - r.line.length := by
      simp
    refine ⟨h.placed, nofun, ?_, ?_, h.past, h.genuine⟩
    · rintro f ⟨⟩
      exact hopen
    · rintro f ⟨⟩
      dsimp only
      rw [hfirst]
      exact hbegins

/-- The rest of the file. -/
theorem read {f : File Handle} (h : Honest (some f) line log fs) :
    let r := ((fs.content f.handle.inode).drop f.offset).foldl Reading.byte ⟨f, line, log⟩
    Honest (some r.file) r.line r.log fs := by
  have hread := Reading.foldl_invariant
    (fun r => Honest (some r.file) r.line r.log fs ∧ r.file.handle = f.handle)
    (fs.content f.handle.inode) (r := ⟨f, line, log⟩)
    (fun r b hr hb => ⟨hr.1.byte (by rwa [hr.2]), by rw [Reading.file_byte]; exact hr.2⟩)
    ⟨h, rfl⟩
  exact hread.1

/-- **Closing** delivers the pending line, if there is one. -/
theorem close {f : File Handle} (h : Honest (some f) line log fs) :
    Honest none [] (if line.isEmpty then log else log ++ [⟨f, line⟩]) (fs.close f.handle) := by
  have hlt := (h.isOpen f rfl).inode_lt
  have hlog : Honest none [] (if line.isEmpty then log else log ++ [⟨f, line⟩]) fs := by
    split
    · exact ⟨h.placed, fun _ => rfl, nofun, nofun, h.past, h.genuine⟩
    · rename_i hline
      obtain ⟨hpast, hgenuine⟩ := h.push_log hlt (h.pending (by simpa using hline))
      exact ⟨h.placed, fun _ => rfl, nofun, nofun, hpast, hgenuine⟩
  have hplaced := hlog.placed.close f.handle
  rw [close_eq] at hplaced ⊢
  exact ⟨hplaced, hlog.idle, nofun, nofun, hlog.past, hlog.genuine⟩

/-- **Opening.** -/
theorem openAt {i offset : Nat} (h : Honest none line log fs) (hocc : fs.occupant = some i)
    (hoffset : offset = 0 ∨ offset = (fs.content i).length) :
    Honest (some ⟨fs.handle i, offset⟩) line log fs := by
  have hline : line = [] := h.idle rfl
  subst hline
  have hle : offset ≤ (fs.content i).length := by
    rcases hoffset with rfl | rfl
    · exact Nat.zero_le _
    · exact le_rfl
  refine ⟨h.placed, nofun, ?_, ?_, h.past, h.genuine⟩
  · rintro f ⟨⟩
    refine ⟨h.placed.occupant_lt i hocc, ?_, fun _ => ⟨rfl, hocc⟩, ?_⟩
    · refine ⟨hle, (slice_self _ _).symm, Nat.zero_le _, ?_, .inl hle, ?_⟩
      · intro j hj hlej
        exact absurd hj (Nat.not_lt.mpr hlej)
      · -- No line fits between the length at the opening and the offset.
        intro a b hcomplete hopen hb
        have hlt := hcomplete.lt
        dsimp only [Files.handle] at hopen hb
        omega
    · intro n hn
      exact absurd (hn.symm.trans (h.placed.current i hocc)) nofun
  · rintro f ⟨⟩
    rcases hoffset with rfl | rfl
    · exact .inl rfl
    · exact .inr (.inl rfl)

/-- **A change.** -/
theorem change {name : Bytes} {c : Change} (h : Honest fp line log fs)
    (hallows : fs.Allows name c) : Honest fp line log (fs.change c) := by
  obtain ⟨hplaced, hlater⟩ := placed_change h.placed hallows
  refine ⟨hplaced, h.idle, fun f hf => (h.isOpen f hf).later hlater, ?_, ?_, ?_⟩
  · intro f hf
    obtain ⟨more, hmore⟩ := hlater.grows _ (h.isOpen f hf).inode_lt
    rw [hmore]
    exact (h.begins f hf).append more
  · exact fun d hd => (h.past d hd).trans_le hlater.fresh
  · intro d hd
    obtain ⟨more, hmore⟩ := hlater.grows _ (h.past d hd)
    rw [hmore]
    exact (h.genuine d hd).append more

/-- A file system that was not watched yet. -/
theorem of_unwatched {fs : Filesystem} (h : Unwatched fs) : Honest none [] [] fs.files where
  placed := ⟨fun i hi => (h.occupant i hi).1, h.elsewhere, by simp [h.leftLen], by simp [h.leftLen]⟩
  idle _ := rfl
  isOpen := nofun
  begins := nofun
  past := by simp
  genuine := by simp

end Honest

/-- The invariant, of a watcher at work. -/
def HonestCall {ω : Type} (c : Call Handle ω (List Delivery) Filesystem) : Prop :=
  Honest c.self.fp c.self.line c.client c.world.files

/-! ### With inotify -/

section
variable {c : Site}

/-- Reading delivers texts that are in the file. -/
theorem honest_readAll (h : HonestCall c) : HonestCall (readAll c) := by
  unfold readAll
  cases hfp : c.self.fp with
  | none => exact h
  | some f =>
    have hopen : Honest (some f) c.self.line c.client c.world.files := hfp ▸ h
    exact hopen.read

/-- The line that closing delivers is in the file too. -/
theorem honest_shut (h : HonestCall c) : HonestCall (shut c) := by
  unfold shut
  cases hfp : c.self.fp with
  | none => exact h
  | some f =>
    have hopen : Honest (some f) c.self.line c.client c.world.files := hfp ▸ h
    exact hopen.close

/-- Opening begins a new line. -/
theorem honest_reopen (h : HonestCall c) : HonestCall (reopen c) := by
  unfold reopen
  split
  · rename_i i hfp hocc
    have hclosed : Honest none c.self.line c.client c.world.files := hfp ▸ h
    exact hclosed.openAt hocc (.inl rfl)
  · exact h

end

/-- A new watcher has delivered nothing. -/
theorem honest_of_constructed {path : Bytes} {s : Monitored} (h : Constructed path s) :
    HonestCall s.call := by
  obtain ⟨fs, hfs, -, -, hclient, hworld, hself⟩ := constructed_cases h
  have hstart := Honest.of_unwatched hfs
  have hline : s.call.self.line = [] := by
    rw [hself]
    exact line_reopen _
  have hfiles : s.call.world.files = fs.files := by
    rw [hworld, files_reopen]
    rfl
  have hfp : s.call.self.fp = (fs.files.occupant.map fun i =>
      (⟨fs.files.handle i, 0⟩ : File Handle)).map (atEnd fs) := by
    rw [hself]
    exact congrArg (Option.map (atEnd fs)) (fp_reopen rfl)
  unfold HonestCall
  rw [hclient, hfiles, hline, hfp]
  cases hocc : fs.files.occupant with
  | none => exact hstart
  | some i => exact hstart.openAt hocc (.inr rfl)

/-- **The step lemma.** -/
theorem honest_step {path : Bytes} {s s' : Monitored} {a : Action}
    (hs : Wired path s.call ∧ HonestCall s.call) (h : Transition path s a s') :
    Wired path s'.call ∧ HonestCall s'.call := by
  refine ⟨wired_step hs.1 h, ?_⟩
  obtain ⟨hwired, hhonest⟩ := hs
  cases h with
  | changed hallows => exact Honest.change hhonest hallows
  | read _ _ _ => exact hhonest
  | handled hbatch hrun =>
    rcases handled_cases hwired hrun with rfl | ⟨-, rfl | rfl⟩ | ⟨-, rfl⟩
    · exact hhonest
    · exact honest_readAll hhonest
    · exact honest_shut (honest_readAll hhonest)
    · exact honest_readAll (honest_reopen (honest_shut hhonest))

/-- The run lemma. -/
theorem honest_of_reachable {path : Bytes} {s : Monitored}
    (h : Reachable (Constructed path) (Transition path) s) :
    Wired path s.call ∧ HonestCall s.call :=
  h.invariant (fun _ hs => ⟨wired_of_constructed hs, honest_of_constructed hs⟩)
    fun _ _ _ => honest_step

/-- **Every text is genuine**, whatever happens to the files and whenever the events are
handled. -/
theorem texts_genuine {path : Bytes} {s : Monitored}
    (h : Reachable (Constructed path) (Transition path) s) :
    ∀ d ∈ s.call.client, Genuine (s.call.world.files.content d.file.handle.inode) d :=
  (honest_of_reachable h).2.genuine

/-- The start of a line, a rotation, and a line in the new file; all events are handled at once. -/
def partialLine : List Action :=
  [.changed (.append 0 (lit "a")), .changed (.renameAway none), .changed .create,
    .changed (.append 1 (lit "b\n")), .read 4, .handled, .handled, .handled, .handled]

/-- The start of a line, and a line of another file that is read twice. -/
theorem texts_genuine_partialLine :
    ∃ s : Monitored, s.call.client.map Delivery.text = [lit "a", lit "b\n", lit "b\n"] ∧
      ∀ d ∈ s.call.client, Genuine (s.call.world.files.content d.file.handle.inode) d := by
  have hrun : (execAll (lit "/log") (fun _ _ => True) watchingOneFile partialLine).map
      (fun s => s.call.client.map Delivery.text) = some [lit "a", lit "b\n", lit "b\n"] := by
    decide +kernel
  obtain ⟨s, hs, htexts⟩ := Option.map_eq_some_iff.mp hrun
  have hreach := reachable_of_execAll (.start constructed_watchingOneFile) hs
  exact ⟨s, htexts, texts_genuine hreach.of_guarded⟩

end Blockad.Proofs
