import Blockad.Lib.Lines
import Blockad.Lib.Pieces
import Blockad.Lib.Runs
import Blockad.Model.PollingWatcher
import Blockad.Proofs.Operations
import Blockad.Proofs.Rotation

/-!
# `Blockad.Proofs.LineSplitting`: lines do not depend on how the log arrives

`readLines` keeps an unfinished line in `line` until the rest of it arrives. A run appends any
chunks to an open file and calls `readLines` in between, and the client keeps the texts it gets
next to its own state.

* `readBytes_tap`: the bytes that are read are cut after each newline, with the pending line in
  front of them.
* `closeFile_tap`: a pending line is the last text before the file is closed.
* `lines_independent_of_chunks`: nothing is lost, merged or repeated, and the texts depend on
  the bytes that were read only.
-/

set_option autoImplicit false

namespace Blockad.Proofs

open Bytes Lines Pieces Prog Runs Watcher

/-! ### Reading -/

section
variable {H ω α W : Type}

/-- A client that also keeps the texts it gets. -/
def tap (callback : Callback H α) : Callback H (α × List Bytes) := fun fp text c =>
  match callback fp text c.1 with
  | .ok () a => .ok () (a, c.2 ++ [text])
  | .error h a => .error h (a, c.2 ++ [text])

/-- A watcher at work for such a client. -/
abbrev Tapped (H ω α W : Type) := Call H ω (α × List Bytes) W

/-- The watcher when it has read some bytes, and left its client in state `a`. -/
def afterBytes (s : Tapped H ω α W) (bytes : Bytes) (a : α) : Tapped H ω α W where
  self := { s.self with
    fp := s.self.fp.map fun f => { f with offset := f.offset + bytes.length }
    line := (cut nl s.self.line bytes).2 }
  client := (a, s.client.2 ++ (cut nl s.self.line bytes).1)
  world := s.world

variable {callback : Callback H α}

/-- The client gets the line, which is kept. -/
theorem processLine_tap (hquiet : Quiet callback) (s : Tapped H ω α W) :
    ∃ a, processLine (tap callback) s =
      .ok () { s with client := (a, s.client.2 ++ [s.self.line]) } := by
  obtain ⟨a, ha⟩ := hquiet s.self.fp s.self.line s.client.1
  refine ⟨a, processLine_of_ok ?_⟩
  rw [tap, ha]

/-- A byte that is no newline is added to the line. -/
theorem readBytes_of_ne {callback : Callback H α} {close : Prog H ω α W Unit}
    {error : Option Errno} {c : UInt8} (hc : c ≠ nl) (rest : Bytes) (s : Call H ω α W) :
    readBytes callback close error (c :: rest) s =
      readBytes callback close error rest { s with self := takeByte c s.self } := by
  have hne : (c == nl) = false := by simpa using hc
  show (assign (takeByte c) >>= fun _ => if c == nl then _ else
    readBytes callback close error rest) s = _
  rw [hne]
  rfl

/-- A newline passes the line, which is cleared then. -/
theorem readBytes_nl {callback : Callback H α} {close : Prog H ω α W Unit}
    {error : Option Errno} {s s' : Call H ω α W} (rest : Bytes)
    (h : processLine callback { s with self := takeByte nl s.self } = .ok () s') :
    readBytes callback close error (nl :: rest) s =
      readBytes callback close error rest { s' with self := clearLine s'.self } := by
  show (processLine callback >>= fun _ => assign clearLine >>= fun _ =>
    readBytes callback close error rest) { s with self := takeByte nl s.self } = _
  rw [bind_of_ok h]
  rfl

/-- The state after some bytes, from the second one on. -/
theorem afterBytes_cons_of_ne {c : UInt8} (hc : c ≠ nl) (rest : Bytes) (s : Tapped H ω α W)
    (a : α) :
    afterBytes { s with self := takeByte c s.self } rest a = afterBytes s (c :: rest) a := by
  obtain ⟨⟨p, fp, line, own⟩, client, w⟩ := s
  simp only [afterBytes, takeByte, cut_of_ne hc, Option.map_map, List.length_cons]
  cases fp <;> simp [Nat.add_assoc, Nat.add_comm 1]

/-- The same, when the first of them is a newline. -/
theorem afterBytes_cons_nl (rest : Bytes) (s : Tapped H ω α W) (a₁ a : α) :
    afterBytes { s with
        self := clearLine (takeByte nl s.self)
        client := (a₁, s.client.2 ++ [s.self.line ++ [nl]]) } rest a =
      afterBytes s (nl :: rest) a := by
  obtain ⟨⟨p, fp, line, own⟩, client, w⟩ := s
  simp only [afterBytes, takeByte, clearLine, cut_nl, Option.map_map, List.length_cons,
    List.append_assoc, List.singleton_append]
  cases fp <;> simp [Nat.add_assoc, Nat.add_comm 1]

/-- **Reading.** -/
theorem readBytes_tap (hquiet : Quiet callback) (close : Prog H ω (α × List Bytes) W Unit)
    (bytes : Bytes) (s : Tapped H ω α W) :
    ∃ a, readBytes (tap callback) close none bytes s = .ok () (afterBytes s bytes a) := by
  induction bytes generalizing s with
  | nil =>
    refine ⟨s.client.1, ?_⟩
    obtain ⟨⟨p, fp, line, own⟩, ⟨a, texts⟩, w⟩ := s
    cases fp <;> simp [afterBytes, cut] <;> rfl
  | cons c rest ih =>
    by_cases hc : c = nl
    · subst hc
      obtain ⟨a₁, hline⟩ := processLine_tap hquiet { s with self := takeByte nl s.self }
      obtain ⟨a, hrest⟩ := ih { s with
        self := clearLine (takeByte nl s.self)
        client := (a₁, s.client.2 ++ [s.self.line ++ [nl]]) }
      exact ⟨a, by rw [readBytes_nl rest hline, ← afterBytes_cons_nl rest s a₁ a, ← hrest]; rfl⟩
    · obtain ⟨a, hrest⟩ := ih { s with self := takeByte c s.self }
      exact ⟨a, by rw [readBytes_of_ne hc, hrest, afterBytes_cons_of_ne hc]⟩

end

/-! ### Runs -/

section
variable {ω α : Type}

/-- The content of an open file, and how far it was read. -/
def contentOf (file : Handle) (s : Tapped Handle ω α Filesystem) : Bytes :=
  s.world.files.content file.inode

def offsetOf (s : Tapped Handle ω α Filesystem) : Nat := (s.self.fp.map File.offset).getD 0

/-- The bytes that were read since `f` was the open file. -/
def bytesRead (f : File Handle) (s : Tapped Handle ω α Filesystem) : Bytes :=
  slice (contentOf f.handle s) f.offset (offsetOf s)

/-- The watcher has the file open, with nothing pending. -/
structure Opened (f : File Handle) (s : Tapped Handle ω α Filesystem) : Prop where
  fp : s.self.fp = some f
  offset : f.offset ≤ (contentOf f.handle s).length
  line : s.self.line = []
  texts : s.client.2 = []

/-- What happens. -/
inductive Arrival where
  | appended (chunk : Bytes)
  | read

variable (path : Bytes) (k : Nat) (callback : Callback Handle α)
  (close : Prog Handle ω (α × List Bytes) Filesystem Unit)

/-- A chunk is appended to the file, or the watcher reads what there is. -/
inductive Arrives (f : File Handle) :
    Tapped Handle ω α Filesystem → Arrival → Tapped Handle ω α Filesystem → Prop where
  | appended (s : Tapped Handle ω α Filesystem) (chunk : Bytes) :
      Arrives f s (.appended chunk)
        { s with world := s.world.change (cstr (getBaseName path)) (.append f.handle.inode chunk) }
  | read {s s' : Tapped Handle ω α Filesystem}
      (h : readLines (kernel path k) (tap callback) close s = .ok () s') : Arrives f s .read s'

/-- What a run has passed to its client. -/
structure Splits (f : File Handle) (s : Tapped Handle ω α Filesystem) : Prop where
  /-- The texts and the pending line are the bytes that were read. -/
  nothing_lost : s.client.2.flatten ++ s.self.line = bytesRead f s
  /-- The texts are lines. -/
  lines : ∀ text ∈ s.client.2, IsPiece nl text
  pending : nl ∉ s.self.line
  /-- `readLines` reads all there is. -/
  reads : ∃ s', readLines (kernel path k) (tap callback) close s = .ok () s' ∧
    bytesRead f s' = (contentOf f.handle s).drop f.offset
  /-- `closeFile` passes what is pending, if there is something. -/
  closes : ∃ s', close s = .ok () s' ∧ s'.self.line = [] ∧ s'.self.fp = none ∧
    s'.client.2 = s.client.2 ++ if s.self.line = [] then [] else [s.self.line]

/-- The invariant of the runs: the bytes that were read, cut into lines. -/
def Cuts (f : File Handle) (s : Tapped Handle ω α Filesystem) : Prop :=
  ∃ n, s.self.fp = some { f with offset := n } ∧ f.offset ≤ n ∧
    n ≤ (contentOf f.handle s).length ∧
      s.client.2 = pieces nl (slice (contentOf f.handle s) f.offset n) ∧
        s.self.line = rest nl (slice (contentOf f.handle s) f.offset n)

variable {path k callback close}

variable (path k close) in
/-- All that is left of the file is read. -/
theorem readLines_tap (hquiet : Quiet callback) {f : File Handle}
    {s : Tapped Handle ω α Filesystem} (hfp : s.self.fp = some f) :
    ∃ a, readLines (kernel path k) (tap callback) close s =
      .ok () (afterBytes s ((contentOf f.handle s).drop f.offset) a) := by
  obtain ⟨⟨p, fp, line, own⟩, client, w⟩ := s
  cases hfp
  exact readBytes_tap hquiet close _ _

/-- At the start, nothing was cut. -/
theorem cuts_of_opened {f : File Handle} {s : Tapped Handle ω α Filesystem} (h : Opened f s) :
    Cuts f s := by
  refine ⟨f.offset, h.fp, le_rfl, h.offset, ?_, ?_⟩
  · rw [slice_self, h.texts]
    rfl
  · rw [slice_self, h.line]
    rfl

variable (path k close) in
/-- What `readLines` does to the invariant. -/
theorem cuts_of_read (hquiet : Quiet callback) {f : File Handle}
    {s : Tapped Handle ω α Filesystem} (hs : Cuts f s) :
    ∃ s', readLines (kernel path k) (tap callback) close s = .ok () s' ∧ Cuts f s' ∧
      s'.self.path = s.self.path ∧ s'.self.own = s.self.own ∧ s'.world = s.world ∧
        offsetOf s' = (contentOf f.handle s).length := by
  obtain ⟨n, hfp, hle, hlen, htexts, hline⟩ := hs
  obtain ⟨a, hrun⟩ := readLines_tap path k close hquiet hfp
  have hend : n + ((contentOf f.handle s).drop n).length = (contentOf f.handle s).length := by
    rw [List.length_drop]
    omega
  have hwhole : slice (contentOf f.handle s) f.offset (contentOf f.handle s).length
      = slice (contentOf f.handle s) f.offset n ++ (contentOf f.handle s).drop n := by
    rw [slice_length, slice_append_drop hle hlen]
  -- The pending line is what the earlier bytes left over.
  have hcut : cut nl s.self.line ((contentOf f.handle s).drop n) =
      (pieces nl (s.self.line ++ (contentOf f.handle s).drop n),
        rest nl (s.self.line ++ (contentOf f.handle s).drop n)) :=
    cut_eq (hline ▸ notMem_rest _) _
  refine ⟨_, hrun, ⟨(contentOf f.handle s).length, ?_, by omega, le_rfl, ?_, ?_⟩, rfl, rfl, rfl, ?_⟩
  · simp only [afterBytes, hfp, Option.map_some, hend]
  · show s.client.2 ++ (cut nl s.self.line _).1 = pieces nl (slice (contentOf f.handle s) _ _)
    rw [hwhole, pieces_append, hcut, htexts, hline]
  · show (cut nl s.self.line _).2 = rest nl (slice (contentOf f.handle s) _ _)
    rw [hwhole, rest_append, hcut, hline]
  · simp only [offsetOf, afterBytes, hfp, Option.map_some, Option.getD_some, hend]

/-- More content leaves the cut as it was. -/
theorem cuts_of_appended {f : File Handle} {s : Tapped Handle ω α Filesystem} (hs : Cuts f s)
    (name chunk : Bytes) :
    Cuts f { s with world := s.world.change name (.append f.handle.inode chunk) } := by
  obtain ⟨n, hfp, hle, hlen, htexts, hline⟩ := hs
  -- What was read so far stays as it is.
  have hcontent : contentOf f.handle { s with
      world := s.world.change name (.append f.handle.inode chunk) }
        = contentOf f.handle s ++ chunk := Function.update_self ..
  refine ⟨n, hfp, hle, ?_, ?_, ?_⟩
  · rw [hcontent, List.length_append]
    omega
  · rw [hcontent, slice_append hlen, htexts]
  · rw [hcontent, slice_append hlen, hline]

/-- **One step.** What was read is cut into lines and a rest. -/
theorem cuts_step (hquiet : Quiet callback) {f : File Handle} {e : Arrival}
    {s s' : Tapped Handle ω α Filesystem} (hs : Cuts f s)
    (h : Arrives path k callback close f s e s') : Cuts f s' := by
  cases h with
  | appended chunk => exact cuts_of_appended hs _ chunk
  | read hrun =>
    obtain ⟨s₁, hrun₁, hs₁, -⟩ := cuts_of_read path k close hquiet hs
    cases hrun₁.symm.trans hrun
    exact hs₁

/-- The lines and the rest are those of all the bytes that were read. -/
theorem bytesRead_of_cuts {f : File Handle} {s : Tapped Handle ω α Filesystem} (hs : Cuts f s) :
    s.client.2 = pieces nl (bytesRead f s) ∧ s.self.line = rest nl (bytesRead f s) := by
  obtain ⟨n, hfp, -, -, htexts, hline⟩ := hs
  rw [bytesRead, offsetOf, hfp]
  exact ⟨htexts, hline⟩

end

/-! ### The end of the file -/

section
variable {α : Type} {callback : Callback Handle α}

/-- The file is closed, and what was pending is the last text. -/
def Closed {ω : Type} (s s' : Tapped Handle ω α Filesystem) : Prop :=
  s'.self.line = [] ∧ s'.self.fp = none ∧
    s'.client.2 = s.client.2 ++ if s.self.line = [] then [] else [s.self.line]

/-- The watcher with its pending line passed. -/
theorem flushLine_tap (hquiet : Quiet callback) (s : Tapped Handle Inotify α Filesystem) :
    Ends (fun _ s₁ => s₁.self.line = [] ∧
        s₁.client.2 = s.client.2 ++ if s.self.line = [] then [] else [s.self.line])
      (fun _ _ => False) (InotifyWatcher.flushLine (tap callback) s) := by
  obtain ⟨a, ha⟩ := hquiet s.self.fp s.self.line s.client.1
  have htap : tap callback s.self.fp s.self.line s.client =
      .ok () (a, s.client.2 ++ [s.self.line]) := by rw [tap, ha]
  refine flushLine_ends (fun hline => ⟨hline, by simp [hline]⟩) ?_ ?_
  · intro client hline hcall
    cases htap.symm.trans hcall
    exact ⟨rfl, by rw [if_neg hline]; rfl⟩
  · intro h client hcall
    cases htap.symm.trans hcall

/-- `closeFile` passes the rest, if there is one. -/
theorem closeFile_tap (hquiet : Quiet callback) (path : Bytes) (k : Nat) {f : File Handle}
    {s : Tapped Handle Inotify α Filesystem} (hfp : s.self.fp = some f) :
    ∃ s', InotifyWatcher.closeFile (kernel path k) (tap callback) s = .ok () s' ∧ Closed s s' := by
  have hends : Ends (fun _ s' => Closed s s') (fun _ _ => False)
      (InotifyWatcher.closeFile (kernel path k) (tap callback) s) := by
    refine closeFile_ends (fun hnone => by rw [hfp] at hnone; cases hnone) fun _ _ => ?_
    refine (flushLine_tap hquiet s).mono (fun _ s₁ ⟨hline, htexts⟩ => ?_) fun _ _ => id
    -- The watch is there, or it is gone already.
    refine removeWatch_ends (fun _ => ⟨hline, rfl, htexts⟩) (fun _ _ _ => ⟨hline, rfl, htexts⟩)
      (fun _ _ _ => ⟨hline, rfl, htexts⟩) ?_
    intro errno world herrno hcall
    dsimp only [kernel] at hcall
    split at hcall
    · cases hcall
    · cases hcall
      exact herrno rfl
  obtain ⟨_, s', hrun, hs'⟩ := hends.exists_ok
  exact ⟨s', hrun, hs'⟩

/-- So does that of the watcher that polls. -/
theorem closeFile_poll_tap (hquiet : Quiet callback) (path : Bytes) (now : Int) {f : File Handle}
    {s : Tapped Handle Polling α Filesystem} (hfp : s.self.fp = some f) :
    ∃ s', PollingWatcher.closeFile (pollKernel path now) (tap callback) s = .ok () s' ∧
      Closed s s' := by
  obtain ⟨⟨p, fp, line, own⟩, client, w⟩ := s
  cases hfp
  cases line with
  | nil => exact ⟨_, rfl, rfl, rfl, by simp⟩
  | cons c rest =>
    obtain ⟨a, hline⟩ := processLine_tap hquiet
      (⟨⟨p, some f, c :: rest, own⟩, client, w⟩ : Tapped Handle Polling α Filesystem)
    refine ⟨⟨⟨p, none, [], ⟨own.next, -1, -1⟩⟩, (a, client.2 ++ [c :: rest]),
      (pollKernel path now).fclose f.handle w⟩, ?_, rfl, rfl, ?_⟩
    · exact bind_of_ok (x := Watcher.processLine (tap callback)) hline
    · simp

end

/-! ### Any chunks -/

section
variable {α : Type} {callback : Callback Handle α}

/-- What a run has passed, for a `closeFile` that passes what is pending. -/
theorem splits_of_reachable {ω : Type} {path : Bytes} {k : Nat} (hquiet : Quiet callback)
    {close : Prog Handle ω (α × List Bytes) Filesystem Unit}
    (hclose : ∀ {f : File Handle} {s : Tapped Handle ω α Filesystem}, s.self.fp = some f →
      ∃ s', close s = .ok () s' ∧ Closed s s')
    {f : File Handle} {s : Tapped Handle ω α Filesystem}
    (h : Reachable (Opened f) (Arrives path k callback close f) s) :
    Splits path k callback close f s := by
  have hs : Cuts f s := h.invariant (fun _ => cuts_of_opened) fun _ _ _ hs => cuts_step hquiet hs
  obtain ⟨htexts, hline⟩ := bytesRead_of_cuts hs
  obtain ⟨n, hfp, -⟩ := id hs
  refine ⟨?_, ?_, ?_, ?_, ?_⟩
  · rw [htexts, hline, flatten_pieces]
  · rw [htexts]
    exact fun text => isPiece_of_mem
  · rw [hline]
    exact notMem_rest _
  · obtain ⟨s', hrun, -, -, -, hworld, hoffset⟩ := cuts_of_read path k close hquiet hs
    exact ⟨s', hrun, by rw [bytesRead, hoffset, contentOf, hworld, contentOf, slice_length]⟩
  · obtain ⟨s', hrun, hline', hfp', htexts'⟩ := hclose hfp
    exact ⟨s', hrun, hline', hfp', htexts'⟩

/-- **Line splitting is independent of how the log arrives.** -/
theorem lines_independent_of_chunks (hquiet : Quiet callback) (path : Bytes) (k : Nat)
    (now : Int) :
    -- with inotify
    (∀ f s, Reachable (Opened f) (Arrives path k callback
        (InotifyWatcher.closeFile (kernel path k) (tap callback)) f) s →
      Splits path k callback (InotifyWatcher.closeFile (kernel path k) (tap callback)) f s) ∧
    -- without it
    (∀ f s, Reachable (Opened f) (Arrives path k callback
        (PollingWatcher.closeFile (pollKernel path now) (tap callback)) f) s →
      Splits path k callback (PollingWatcher.closeFile (pollKernel path now) (tap callback)) f s) ∧
    -- two runs that have read the same bytes, in any chunks
    ∀ (ω ω' : Type) (close : Prog Handle ω (α × List Bytes) Filesystem Unit)
      (close' : Prog Handle ω' (α × List Bytes) Filesystem Unit) f f' s s',
      Reachable (Opened f) (Arrives path k callback close f) s →
      Reachable (Opened f') (Arrives path k callback close' f') s' →
      bytesRead f s = bytesRead f' s' → s.client.2 = s'.client.2 ∧ s.self.line = s'.self.line := by
  refine ⟨fun f s h => splits_of_reachable hquiet (closeFile_tap hquiet path k) h,
    fun f s h => splits_of_reachable hquiet (closeFile_poll_tap hquiet path now) h, ?_⟩
  intro ω ω' close close' f f' s s' h h' hbytes
  have hs : Cuts f s := h.invariant (fun _ => cuts_of_opened) fun _ _ _ hs => cuts_step hquiet hs
  have hs' : Cuts f' s' :=
    h'.invariant (fun _ => cuts_of_opened) fun _ _ _ hs => cuts_step hquiet hs
  obtain ⟨htexts, hline⟩ := bytesRead_of_cuts hs
  obtain ⟨htexts', hline'⟩ := bytesRead_of_cuts hs'
  rw [htexts, hline, htexts', hline', hbytes]
  exact ⟨rfl, rfl⟩

/-- A watcher of an empty file, with a client that does nothing. -/
def watchingNothing : Tapped Handle Inotify Unit Filesystem :=
  ⟨⟨lit "/log", some ⟨⟨0, 0, 0⟩, 0⟩, [], ⟨lit "log", lit "/", 3, 2, dirWd⟩⟩, ((), []), oneFile⟩

/-- One line and the start of another one are appended. -/
theorem lines_independent_of_chunks_watchingNothing :
    Splits (lit "/log") 1 (fun _ _ _ => .ok () ())
      (InotifyWatcher.closeFile (kernel (lit "/log") 1) (tap fun _ _ _ => .ok () ()))
      ⟨⟨0, 0, 0⟩, 0⟩
      { watchingNothing with
        world := oneFile.change (lit "log") (.append 0 (lit "up\nand r")) } := by
  have hquiet : Quiet fun (_ : Option (File Handle)) _ (_ : Unit) => .ok () () :=
    fun _ _ _ => ⟨(), rfl⟩
  have hopened : Opened ⟨⟨0, 0, 0⟩, 0⟩ watchingNothing := ⟨rfl, Nat.le_refl 0, rfl, rfl⟩
  exact (lines_independent_of_chunks hquiet (lit "/log") 1 0).1 _ _
    (.next _ (.start hopened) (.appended _ (lit "up\nand r")))

end

end Blockad.Proofs
