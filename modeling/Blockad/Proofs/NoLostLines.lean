import Blockad.Lib.Lines
import Blockad.Proofs.Rotation

/-!
# `Blockad.Proofs.NoLostLines`: when no complete line is lost

An event of the open file reads it before anything else. A directory event closes it without
reading, and a stale one may come when the file has left the path with lines that were not
read.

* `Follows`: what holds of an open file. The complete lines up to its offset have been
  delivered, and the pending line is the rest.
* `Kept`: the invariant.
* `no_lost_lines`: in every run in which no directory event finds such a line, each file that is
  closed after it left the path has had all its complete lines delivered.
* `not_noLostLines_secondRotation`: two rotations and a split batch lose a line.
-/

set_option autoImplicit false

namespace Blockad.Proofs

open Bytes Lines Runs Watcher InotifyWatcher Monitored

/-! ### Delivered lines -/

/-- The line from `a` up to `b` of the file has been delivered as it is. -/
def HasLine (log : List Delivery) (content : Bytes) (h : Handle) (a b : Nat) : Prop :=
  ∃ d ∈ log, d.file = ⟨h, b⟩ ∧ d.text = slice content a b

/-- A line that was delivered stays delivered. -/
theorem HasLine.mono {log log' : List Delivery} {content : Bytes} {h : Handle} {a b : Nat}
    (hline : HasLine log content h a b) (hsub : log ⊆ log') : HasLine log' content h a b := by
  obtain ⟨d, hd, hfile⟩ := hline
  exact ⟨d, hsub hd, hfile⟩

/-- The complete lines that were appended after the file was opened, up to `limit`, have been
delivered. -/
def LinesDelivered (log : List Delivery) (content : Bytes) (h : Handle) (limit : Nat) : Prop :=
  ∀ a b, IsLine nl content a b → h.openLen ≤ a → b ≤ limit → HasLine log content h a b

/-- So do all of them, and those of a smaller part. -/
theorem LinesDelivered.mono {log log' : List Delivery} {content : Bytes} {h : Handle}
    {limit limit' : Nat} (hlines : LinesDelivered log content h limit) (hsub : log ⊆ log')
    (hle : limit' ≤ limit) : LinesDelivered log' content h limit' :=
  fun a b hline hopen hb => (hlines a b hline hopen (hb.trans hle)).mono hsub

/-- More content has the same lines up to the limit. -/
theorem LinesDelivered.append {log : List Delivery} {content : Bytes} {h : Handle} {limit : Nat}
    (hlines : LinesDelivered log content h limit) (hle : limit ≤ content.length) (more : Bytes) :
    LinesDelivered log (content ++ more) h limit := by
  intro a b hline hopen hb
  rw [isLine_append (hb.trans hle)] at hline
  obtain ⟨d, hd, hfile, htext⟩ := hlines a b hline hopen hb
  exact ⟨d, hd, hfile, by rw [htext, slice_append (hb.trans hle)]⟩

/-- An open file is read line by line: `line` is what follows the last complete line. -/
structure Follows (log : List Delivery) (content : Bytes) (f : File Handle) (line : Bytes) :
    Prop where
  le_length : f.offset ≤ content.length
  line_eq : line = slice content (f.offset - line.length) f.offset
  line_le : line.length ≤ f.offset
  clean : ∀ i < f.offset, f.offset - line.length ≤ i → content[i]? ≠ some nl
  start : f.offset - line.length ≤ f.handle.openLen ∨
    content[f.offset - line.length - 1]? = some nl
  delivered : LinesDelivered log content f.handle f.offset

/-- More content does not change what was read. -/
theorem Follows.append {log : List Delivery} {content : Bytes} {f : File Handle} {line : Bytes}
    (h : Follows log content f line) (more : Bytes) : Follows log (content ++ more) f line where
  le_length := h.le_length.trans (by simp)
  line_eq := by rw [slice_append h.le_length]; exact h.line_eq
  line_le := h.line_le
  clean i hi hle := by
    rw [List.getElem?_append_left (hi.trans_le h.le_length)]
    exact h.clean i hi hle
  start := h.start.imp_right fun hnl => by
    rw [List.getElem?_append_left (List.getElem?_eq_some_iff.mp hnl).1]
    exact hnl
  delivered := h.delivered.append h.le_length more

/-- **The next byte.** -/
theorem Follows.byte {content : Bytes} {r : Reading} {b : UInt8}
    (h : Follows r.log content r.file r.line) (hb : content[r.file.offset]? = some b) :
    Follows (r.byte b).log content (r.byte b).file (r.byte b).line := by
  have hlt : r.file.offset < content.length := (List.getElem?_eq_some_iff.mp hb).1
  have hline := h.line_le
  have htext : r.line ++ [b]
      = slice content (r.file.offset - r.line.length) (r.file.offset + 1) := by
    rw [slice_succ (Nat.sub_le _ _) hb, ← h.line_eq]
  by_cases hnl : b = nl
  · subst hnl
    rw [Reading.byte_nl]
    refine ⟨hlt, ?_, Nat.zero_le _, ?_, ?_, ?_⟩
    · exact (slice_self _ _).symm
    · intro i hi hle
      dsimp only [List.length_nil] at hi hle
      omega
    · -- The newline itself is what the next line follows.
      exact .inr hb
    · intro a b hcomplete hopen hle
      by_cases hold : b ≤ r.file.offset
      · exact (h.delivered a b hcomplete hopen hold).mono (List.subset_append_left _ _)
      · -- The line that this byte completes is the pending one.
        obtain rfl : b = r.file.offset + 1 := by dsimp only at hle; omega
        obtain rfl : a = r.file.offset - r.line.length :=
          hcomplete.start_eq (Nat.sub_le _ _) h.clean h.start hopen
        exact ⟨_, List.mem_append_right _ List.mem_cons_self, rfl, htext⟩
  · rw [Reading.byte_of_ne hnl]
    have hfirst : r.file.offset + 1 - (r.line ++ [b]).length = r.file.offset - r.line.length := by
      simp
    refine ⟨hlt, ?_, ?_, ?_, ?_, ?_⟩
    · rw [hfirst]
      exact htext
    · rw [List.length_append, List.length_singleton]
      exact Nat.succ_le_succ hline
    · intro i hi hle
      rw [hfirst] at hle
      rcases Nat.lt_succ_iff_lt_or_eq.mp hi with hi | rfl
      · exact h.clean i hi hle
      · rw [hb]
        exact fun heq => hnl (Option.some.inj heq)
    · rw [hfirst]
      exact h.start
    · intro a b' hcomplete hopen hle
      by_cases hold : b' ≤ r.file.offset
      · exact h.delivered a b' hcomplete hopen hold
      · -- No line ends with this byte.
        obtain rfl : b' = r.file.offset + 1 := by dsimp only at hle; omega
        have hlast := hcomplete.last
        rw [Nat.add_sub_cancel, hb] at hlast
        exact absurd (Option.some.inj hlast) hnl

/-! ### Files over time -/

/-- What holds of the files of every run. -/
structure Placed (fs : Files) : Prop where
  occupant_lt : ∀ i, fs.occupant = some i → i < fs.freshInode
  elsewhere_lt : ∀ i ∈ fs.elsewhere, i < fs.freshInode
  /-- The current period is not over while there is a file at the path. -/
  current : ∀ i, fs.occupant = some i → fs.leftLen fs.period = none
  future : ∀ p, fs.period < p → fs.leftLen p = none

/-- What an open or a closed file can rely on: files only grow, and periods only end. -/
structure Later (fs fs' : Files) : Prop where
  fresh : fs.freshInode ≤ fs'.freshInode
  grows : ∀ i < fs.freshInode, ∃ more, fs'.content i = fs.content i ++ more
  ended : ∀ p n, fs.leftLen p = some n → fs'.leftLen p = some n
  stays : ∀ i, fs.occupant = some i → fs'.leftLen fs.period = none →
    fs'.period = fs.period ∧ fs'.occupant = some i
  leaves : ∀ i, fs.occupant = some i → ∀ n, fs'.leftLen fs.period = some n →
    n ≤ (fs'.content i).length
  closed : fs'.closed = fs.closed

/-- Later than something later. -/
theorem Later.trans {fs fs' fs'' : Files} (hfs : Placed fs) (h : Later fs fs')
    (h' : Later fs' fs'') : Later fs fs'' where
  fresh := h.fresh.trans h'.fresh
  grows i hi := by
    obtain ⟨more, hmore⟩ := h.grows i hi
    obtain ⟨more', hmore'⟩ := h'.grows i (hi.trans_le h.fresh)
    exact ⟨more ++ more', by rw [hmore', hmore, List.append_assoc]⟩
  ended p n hn := h'.ended p n (h.ended p n hn)
  stays i hi hnone := by
    have hnone' : fs'.leftLen fs.period = none := by
      rw [Option.eq_none_iff_forall_ne_some]
      exact fun n hn => by simp [h'.ended _ _ hn] at hnone
    obtain ⟨hperiod, hocc⟩ := h.stays i hi hnone'
    obtain ⟨hperiod', hocc'⟩ := h'.stays i hocc (hperiod ▸ hnone)
    exact ⟨hperiod'.trans hperiod, hocc'⟩
  leaves i hi n hn := by
    cases hleft : fs'.leftLen fs.period with
    | none =>
      -- The period ends in the second part.
      obtain ⟨hperiod, hocc⟩ := h.stays i hi hleft
      exact h'.leaves i hocc n (hperiod ▸ hn)
    | some n' =>
      have hsame := h'.ended _ _ hleft
      rw [hn] at hsame
      obtain rfl := Option.some.inj hsame
      obtain ⟨more, hmore⟩ := h'.grows i ((hfs.occupant_lt i hi).trans_le h.fresh)
      have hle := h.leaves i hi n hleft
      rw [hmore, List.length_append]
      omega
  closed := h'.closed.trans h.closed

section
variable {fs : Files} (hfs : Placed fs)
include hfs

/-- A file that goes away ends its period. -/
theorem placed_depart : Placed fs.depart := by
  unfold Files.depart
  split
  · exact hfs
  · refine ⟨nofun, hfs.elsewhere_lt, nofun, ?_⟩
    intro p hp
    have hne : p ≠ fs.period := Nat.ne_of_gt hp
    simpa [Function.update_of_ne hne] using hfs.future p hp

/-- Its content stays. -/
theorem later_depart : Later fs fs.depart := by
  unfold Files.depart
  split
  · rename_i hnone
    exact ⟨le_rfl, fun i _ => ⟨[], by simp⟩, fun _ _ h => h, by simp [hnone], by simp [hnone], rfl⟩
  · rename_i i hocc
    refine ⟨le_rfl, fun i _ => ⟨[], by simp⟩, ?_, ?_, ?_, rfl⟩
    · intro p n hn
      -- The period that ends now was not over before.
      have hne : p ≠ fs.period := by
        rintro rfl
        simp [hfs.current i hocc] at hn
      simpa [Function.update_of_ne hne] using hn
    · intro j hj hnone
      simp at hnone
    · intro j hj n hn
      obtain rfl : i = j := Option.some.inj (hocc.symm.trans hj)
      obtain rfl : (fs.content i).length = n := by simpa using hn
      exact le_rfl

/-- A file that comes begins a period. -/
theorem placed_arrive {i : Nat} (hi : i < fs.freshInode) : Placed (fs.arrive i) where
  occupant_lt j hj := by
    obtain rfl : i = j := Option.some.inj hj
    exact hi
  elsewhere_lt := hfs.elsewhere_lt
  current j hj := hfs.future _ (Nat.lt_succ_self _)
  future p hp := hfs.future p (Nat.lt_of_succ_lt hp)

omit hfs in
/-- It takes the place of no other. -/
theorem later_arrive (hnone : fs.occupant = none) (i : Nat) : Later fs (fs.arrive i) :=
  ⟨le_rfl, fun i _ => ⟨[], by simp [Files.arrive]⟩, fun _ _ h => h, by simp [hnone],
    by simp [hnone], rfl⟩

/-- A change of the contents only. -/
theorem later_grow {content : Nat → Bytes} {freshInode : Nat} {elsewhere : List Nat}
    (hfresh : fs.freshInode ≤ freshInode)
    (hgrows : ∀ i < fs.freshInode, ∃ more, content i = fs.content i ++ more) :
    Later fs { fs with content, freshInode, elsewhere } :=
  ⟨hfresh, hgrows, fun _ _ h => h, fun i hi _ => ⟨rfl, hi⟩,
    fun i hi n hn => by simp [hfs.current i hi] at hn, rfl⟩

/-- Files in another place change nothing here. -/
theorem later_refl (elsewhere : List Nat) : Later fs { fs with elsewhere } :=
  later_grow hfs le_rfl fun _ _ => ⟨[], (List.append_nil _).symm⟩

/-- A new file has a number of its own. -/
theorem placed_newInode (bytes : Bytes) : Placed (fs.newInode bytes) where
  occupant_lt i hi := (hfs.occupant_lt i hi).trans (Nat.lt_succ_self _)
  elsewhere_lt i hi := (hfs.elsewhere_lt i hi).trans (Nat.lt_succ_self _)
  current := hfs.current
  future := hfs.future

/-- The other files are as before. -/
theorem later_newInode (bytes : Bytes) (elsewhere : List Nat) :
    Later fs { fs.newInode bytes with elsewhere } := by
  refine later_grow hfs (Nat.le_succ _) fun i hi => ⟨[], ?_⟩
  show Function.update fs.content fs.freshInode bytes i = _
  rw [Function.update_of_ne (Nat.ne_of_lt hi), List.append_nil]

omit hfs in
/-- Nothing is at the path then. -/
theorem occupant_depart (fs : Files) : fs.depart.occupant = none := by
  unfold Files.depart
  split
  · assumption
  · rfl

omit hfs in
/-- No number is used up. -/
theorem freshInode_depart (fs : Files) : fs.depart.freshInode = fs.freshInode := by
  unfold Files.depart
  split <;> rfl

/-- **Every change.** -/
theorem placed_change {name : Bytes} {c : Change} (h : fs.Allows name c) :
    Placed (fs.change c) ∧ Later fs (fs.change c) := by
  have hdepart := placed_depart hfs
  cases c with
  | append i bytes =>
    refine ⟨⟨hfs.occupant_lt, hfs.elsewhere_lt, hfs.current, hfs.future⟩, ?_⟩
    refine later_grow hfs le_rfl fun j _ => ?_
    by_cases hji : j = i
    · subst hji
      exact ⟨bytes, Function.update_self _ _ _⟩
    · exact ⟨[], by rw [Function.update_of_ne hji, List.append_nil]⟩
  | createElsewhere bytes =>
    have hnew := placed_newInode hfs bytes
    refine ⟨⟨hnew.occupant_lt, ?_, hnew.current, hnew.future⟩, later_newInode hfs _ _⟩
    intro i hi
    rcases List.mem_cons.mp hi with rfl | hi
    · exact Nat.lt_succ_self _
    · exact hnew.elsewhere_lt i hi
  | create =>
    have hnone : (fs.newInode []).occupant = none := h
    exact ⟨placed_arrive (placed_newInode hfs []) (Nat.lt_succ_self _),
      (later_newInode hfs [] fs.elsewhere).trans hfs (later_arrive hnone _)⟩
  | renameAway dest =>
    refine ⟨⟨hdepart.occupant_lt, ?_, hdepart.current, hdepart.future⟩,
      (later_depart hfs).trans hfs (later_refl hdepart _)⟩
    intro i hi
    show i < fs.depart.freshInode
    rw [freshInode_depart]
    rcases List.mem_append.mp hi with hi | hi
    · exact hfs.occupant_lt i (Option.mem_toList.mp hi)
    · exact hfs.elsewhere_lt i hi
  | renameOnto i source early =>
    have hi : i < fs.depart.freshInode := by
      rw [freshInode_depart]
      exact hfs.elsewhere_lt i h.1
    have harrive := placed_arrive hdepart hi
    refine ⟨⟨harrive.occupant_lt, ?_, harrive.current, harrive.future⟩, ?_⟩
    · intro j hj
      show j < fs.depart.freshInode
      rw [freshInode_depart]
      exact hfs.elsewhere_lt j (List.mem_of_mem_erase hj)
    · exact (later_depart hfs).trans hfs ((later_arrive (occupant_depart fs) i).trans hdepart
        (later_refl harrive _))
  | unlink early => exact ⟨hdepart, later_depart hfs⟩
  | destroy i => exact ⟨hfs, later_refl hfs fs.elsewhere⟩
  | notice event => exact ⟨hfs, later_refl hfs fs.elsewhere⟩

end

/-! ### The invariant -/

/-- An open file, when `line` is pending. -/
structure OpenKept (log : List Delivery) (fs : Files) (f : File Handle) (line : Bytes) : Prop where
  inode_lt : f.handle.inode < fs.freshInode
  follows : Follows log (fs.content f.handle.inode) f line
  /-- It is still at the path, unless its period is over. -/
  present : fs.leftLen f.handle.period = none →
    f.handle.period = fs.period ∧ fs.occupant = some f.handle.inode
  left_le : ∀ n, fs.leftLen f.handle.period = some n → n ≤ (fs.content f.handle.inode).length

/-- An open file can rely on what holds later. -/
theorem OpenKept.later {log : List Delivery} {fs fs' : Files} {f : File Handle} {line : Bytes}
    (h : OpenKept log fs f line) (hlater : Later fs fs') : OpenKept log fs' f line := by
  obtain ⟨more, hmore⟩ := hlater.grows _ h.inode_lt
  refine ⟨h.inode_lt.trans_le hlater.fresh, hmore ▸ h.follows.append more, ?_, ?_⟩
  · intro hnone
    have hbefore : fs.leftLen f.handle.period = none := by
      rw [Option.eq_none_iff_forall_ne_some]
      exact fun n hn => by simp [hlater.ended _ _ hn] at hnone
    obtain ⟨hperiod, hocc⟩ := h.present hbefore
    rw [hperiod] at hnone
    obtain ⟨hperiod', hocc'⟩ := hlater.stays _ hocc hnone
    exact ⟨hperiod.trans hperiod'.symm, hocc'⟩
  · intro n hn
    cases hleft : fs.leftLen f.handle.period with
    | none =>
      obtain ⟨hperiod, hocc⟩ := h.present hleft
      exact hlater.leaves _ hocc n (hperiod ▸ hn)
    | some n' =>
      -- It was over already, and the file only grows.
      have hsame := hlater.ended _ _ hleft
      rw [hn] at hsame
      obtain rfl := Option.some.inj hsame
      have hle := h.left_le n hleft
      rw [hmore, List.length_append]
      omega

/-- A file that was closed after it left the path. -/
structure ClosedKept (log : List Delivery) (fs : Files) (h : Handle) : Prop where
  inode_lt : h.inode < fs.freshInode
  delivered : ∃ n, fs.leftLen h.period = some n ∧ n ≤ (fs.content h.inode).length ∧
    LinesDelivered log (fs.content h.inode) h n

/-- So can a closed one. -/
theorem ClosedKept.later {log : List Delivery} {fs fs' : Files} {h : Handle}
    (hkept : ClosedKept log fs h) (hlater : Later fs fs') : ClosedKept log fs' h := by
  obtain ⟨more, hmore⟩ := hlater.grows _ hkept.inode_lt
  obtain ⟨n, hleft, hle, hlines⟩ := hkept.delivered
  refine ⟨hkept.inode_lt.trans_le hlater.fresh, n, hlater.ended _ _ hleft, ?_, ?_⟩
  · rw [hmore, List.length_append]
    omega
  · rw [hmore]
    exact hlines.append hle more

/-- More deliveries keep it. -/
theorem ClosedKept.mono {log log' : List Delivery} {fs : Files} {h : Handle}
    (hkept : ClosedKept log fs h) (hsub : log ⊆ log') : ClosedKept log' fs h := by
  obtain ⟨n, hleft, hle, hlines⟩ := hkept.delivered
  exact ⟨hkept.inode_lt, n, hleft, hle, hlines.mono hsub le_rfl⟩

/-- The invariant of the runs. -/
structure Kept (c : Site) : Prop where
  placed : Placed c.world.files
  idle : c.self.fp = none → c.self.line = []
  isOpen : ∀ f, c.self.fp = some f → OpenKept c.client c.world.files f c.self.line
  isClosed : ∀ h ∈ c.world.files.closed, ClosedKept c.client c.world.files h

/-- One byte more of the open file. -/
theorem kept_byte {c : Site} {r : Reading} {b : UInt8} (h : Kept (withReading c r))
    (hb : (c.world.files.content r.file.handle.inode)[r.file.offset]? = some b) :
    Kept (withReading c (r.byte b)) := by
  have hopen := h.isOpen r.file rfl
  have hsub : r.log ⊆ (r.byte b).log := by
    unfold Reading.byte
    split
    · exact List.subset_append_left _ _
    · exact List.Subset.refl _
  refine ⟨h.placed, nofun, ?_, fun h' hclosed => (h.isClosed h' hclosed).mono hsub⟩
  rintro f ⟨⟩
  have hfollows := hopen.follows.byte hb
  rw [Reading.file_byte] at hfollows ⊢
  exact ⟨hopen.inode_lt, hfollows, hopen.present, hopen.left_le⟩

/-- Reading to the end. -/
theorem kept_readAll {c : Site} (h : Kept c) : Kept (readAll c) :=
  readAll_invariant (fun _ _ hr hb => kept_byte hr hb) h

/-- No complete line of the open file that was appended before it left the path is unread. -/
def NothingUnread (c : Site) : Prop :=
  ∀ f ∈ c.self.fp, ∀ n ∈ c.world.files.leftLen f.handle.period, ∀ b ≤ n, ∀ a < b,
    IsLine nl (c.world.files.content f.handle.inode) a b → f.handle.openLen ≤ a → b ≤ f.offset

instance (c : Site) : Decidable (NothingUnread c) := by
  unfold NothingUnread
  infer_instance

/-- What depends on the files only through what `fclose` leaves alone. -/
theorem Placed.close {fs : Files} (h : Placed fs) (handle : Handle) : Placed (fs.close handle) := by
  rw [close_eq]
  exact ⟨h.occupant_lt, h.elsewhere_lt, h.current, h.future⟩

/-- Closing another file keeps it. -/
theorem ClosedKept.close {log : List Delivery} {fs : Files} {h : Handle}
    (hkept : ClosedKept log fs h) (handle : Handle) : ClosedKept log (fs.close handle) h := by
  rw [close_eq]
  exact ⟨hkept.inode_lt, hkept.delivered⟩

/-- **Closing.** -/
theorem kept_shut {c : Site} (h : Kept c) (hread : NothingUnread c) : Kept (shut c) := by
  unfold shut
  split
  · exact h
  · rename_i f hfp
    have hopen := h.isOpen f hfp
    have hsub : c.client ⊆
        if c.self.line.isEmpty then c.client else c.client ++ [⟨f, c.self.line⟩] := by
      split
      · exact List.Subset.refl _
      · exact List.subset_append_left _ _
    refine ⟨h.placed.close _, fun _ => rfl, nofun, fun h' hclosed => ClosedKept.close ?_ _⟩
    unfold Files.close at hclosed
    dsimp only at hclosed ⊢
    split at hclosed
    · rename_i hleft
      rcases List.mem_append.mp hclosed with hclosed | hclosed
      · exact (h.isClosed h' hclosed).mono hsub
      · -- The file that is closed has left the path, and nothing was left unread.
        obtain rfl := List.mem_singleton.mp hclosed
        obtain ⟨n, hn⟩ := Option.isSome_iff_exists.mp hleft
        refine ⟨hopen.inode_lt, n, hn, hopen.left_le n hn, ?_⟩
        intro a b hline hle hb
        have hb' := hread f hfp n hn b hb a hline.lt hline hle
        exact (hopen.follows.delivered a b hline hle hb').mono hsub
    · exact (h.isClosed h' hclosed).mono hsub

/-- What was read to its end has nothing unread. -/
theorem nothingUnread_readAll {c : Site} (h : Kept c) : NothingUnread (readAll c) := by
  unfold readAll
  split
  · rename_i hfp
    exact fun f hf => by simp [hfp] at hf
  · rename_i f hfp
    rintro f' ⟨⟩ n hn b hb a - - -
    rw [Reading.file_foldl] at hn ⊢
    -- The offset is the length of the file now, which is no less than at its departure.
    have hle := (h.isOpen f hfp).left_le n hn
    have hoffset := (h.isOpen f hfp).follows.le_length
    rw [List.length_drop]
    dsimp only
    omega

/-- **Opening.** -/
theorem kept_reopen {c : Site} (h : Kept c) : Kept (reopen c) := by
  unfold reopen
  split
  · rename_i i hfp hocc
    refine ⟨h.placed, nofun, ?_, h.isClosed⟩
    rintro f ⟨⟩
    refine ⟨h.placed.occupant_lt i hocc, ?_, fun _ => ⟨rfl, hocc⟩, ?_⟩
    · -- Nothing was read yet.
      dsimp only
      rw [h.idle hfp]
      refine ⟨Nat.zero_le _, (slice_self _ _).symm, le_rfl, nofun, .inl (Nat.zero_le _), ?_⟩
      intro a b hline _ hb
      exact absurd hline.lt (by dsimp only at hb; omega)
    · intro n hn
      exact absurd (hn.symm.trans (h.placed.current i hocc)) nofun
  · exact h

/-! ### Runs -/

/-- A new watcher has lost nothing. -/
theorem kept_of_constructed {path : Bytes} {s : Monitored} (h : Constructed path s) :
    Kept s.call := by
  obtain ⟨fs, hfs, -, -, hclient, hworld, hself⟩ := constructed_cases h
  have hfiles : s.call.world.files = fs.files := by
    rw [hworld, files_reopen]
    rfl
  have hline : s.call.self.line = [] := by
    rw [hself]
    exact line_reopen _
  refine ⟨?_, fun _ => hline, ?_, by simp [hfiles, hfs.closed]⟩
  · rw [hfiles]
    exact ⟨fun i hi => (hfs.occupant i hi).1, hfs.elsewhere, by simp [hfs.leftLen],
      by simp [hfs.leftLen]⟩
  · intro f hf
    rw [hself] at hf
    obtain ⟨f', hf', rfl⟩ := Option.map_eq_some_iff.mp hf
    rw [fp_reopen rfl] at hf'
    obtain ⟨i, hocc, rfl⟩ := Option.map_eq_some_iff.mp hf'
    rw [hclient, hfiles, hline]
    refine ⟨(hfs.occupant i hocc).1, ?_, fun _ => ⟨rfl, hocc⟩, by simp [hfs.leftLen]⟩
    -- The constructor has gone to the end of the file.
    refine ⟨le_rfl, (slice_self _ _).symm, Nat.zero_le _, ?_, .inl le_rfl, ?_⟩
    · intro j hj hle
      exact absurd hj (Nat.not_lt.mpr hle)
    · intro a b hline hopen hb
      exact absurd hline.lt (Nat.not_lt.mpr (hb.trans hopen))

/-- A directory event does not find an unread line in a file that has left the path. -/
abbrev FindsNothingUnread : Monitored → Action → Prop := WhenAboutName NothingUnread

/-- **The step lemma.** -/
theorem kept_step {path : Bytes} {s s' : Monitored} {a : Action}
    (hs : Wired path s.call ∧ Kept s.call)
    (h : Guarded (Transition path) FindsNothingUnread s a s') :
    Wired path s'.call ∧ Kept s'.call := by
  obtain ⟨hcond, hstep⟩ := h
  refine ⟨wired_step hs.1 hstep, ?_⟩
  obtain ⟨hwired, hkept⟩ := hs
  cases hstep with
  | changed hallows =>
    -- What other processes do leaves the open file and the closed ones as they were.
    obtain ⟨hplaced, hlater⟩ := placed_change hkept.placed hallows
    refine ⟨hplaced, hkept.idle, fun f hf => (hkept.isOpen f hf).later hlater, ?_⟩
    intro h' hclosed
    change h' ∈ (s.call.world.files.change _).closed at hclosed
    rw [hlater.closed] at hclosed
    exact (hkept.isClosed h' hclosed).later hlater
  | read _ _ _ => exact ⟨hkept.placed, hkept.idle, hkept.isOpen, hkept.isClosed⟩
  | @handled event rest call hbatch hrun =>
    rcases handled_cases hwired hrun with rfl | ⟨-, rfl | rfl⟩ | ⟨habout, rfl⟩
    · exact hkept
    · exact kept_readAll hkept
    · -- The event of the file reads it before it is closed.
      exact kept_shut (kept_readAll hkept) (nothingUnread_readAll hkept)
    · -- Here it is closed without reading.
      have hhead : event ∈ s.batch.head? := by rw [hbatch]; rfl
      exact kept_readAll (kept_reopen (kept_shut hkept (hcond event hhead habout)))

/-- Each file that was closed after it left the path has had every complete line delivered that
was appended while it was open and still there. -/
def NoLostLines (s : Monitored) : Prop :=
  ∀ h ∈ s.call.world.files.closed, ∀ n ∈ s.call.world.files.leftLen h.period,
    LinesDelivered s.call.client (s.call.world.files.content h.inode) h n

/-- **No complete line is lost**, in every run in which no directory event finds an unread line
in a file that has left the path. -/
theorem no_lost_lines {path : Bytes} {s : Monitored}
    (h : Reachable (Constructed path) (Guarded (Transition path) FindsNothingUnread) s) :
    NoLostLines s := by
  have hinv : Wired path s.call ∧ Kept s.call :=
    h.invariant (fun _ hs => ⟨wired_of_constructed hs, kept_of_constructed hs⟩)
      fun _ _ _ => kept_step
  intro handle hclosed n hn
  obtain ⟨n', hleft, -, hlines⟩ := (hinv.2.isClosed handle hclosed).delivered
  obtain rfl : n' = n := Option.some.inj (hleft.symm.trans hn)
  exact hlines

/-- A line is appended, the file is renamed away, and both are handled. -/
def lastLine : List Action :=
  [.changed (.append 0 (lit "a\n")), .changed (.renameAway none), .read 3, .handled, .handled,
    .handled]

/-- A line, a rotation, and its events. -/
theorem no_lost_lines_lastLine :
    ∃ s, s.call.world.files.closed = [⟨0, 0, 0⟩] ∧ NoLostLines s := by
  have hrun : (execAll (lit "/log") FindsNothingUnread watchingOneFile lastLine).map
      (fun s => s.call.world.files.closed) = some [⟨0, 0, 0⟩] := by decide +kernel
  obtain ⟨s, hs, hclosed⟩ := Option.map_eq_some_iff.mp hrun
  exact ⟨s, hclosed, no_lost_lines (reachable_of_execAll (.start constructed_watchingOneFile) hs)⟩

/-- A rotation whose first event alone is handled; then a line in the new file, and a second
rotation. -/
def secondRotation : List Action :=
  [.changed (.renameAway none), .changed .create, .read 1, .handled,
    .changed (.append 1 (lit "a\n")), .changed (.renameAway none), .changed .create,
    .read 2, .handled, .handled]

/-- The event of the first `create` closes the new file, which has left the path by then. -/
theorem not_noLostLines_secondRotation :
    ∃ s, Reachable (Constructed (lit "/log")) (Transition (lit "/log")) s ∧ ¬ NoLostLines s := by
  have hrun : (execAll (lit "/log") (fun _ _ => True) watchingOneFile secondRotation).map
      (fun s => (s.call.world.files.closed, s.call.world.files.leftLen 1,
        s.call.world.files.content 1, s.call.client.length))
      = some ([⟨0, 0, 0⟩, ⟨1, 1, 0⟩], some 2, lit "a\n", 0) := by decide +kernel
  obtain ⟨s, hs, hend⟩ := Option.map_eq_some_iff.mp hrun
  obtain ⟨hclosed, hleft, hcontent, hlength⟩ :
      s.call.world.files.closed = [⟨0, 0, 0⟩, ⟨1, 1, 0⟩] ∧ s.call.world.files.leftLen 1 = some 2 ∧
        s.call.world.files.content 1 = lit "a\n" ∧ s.call.client.length = 0 := by
    simpa using hend
  have hreach := reachable_of_execAll (.start constructed_watchingOneFile) hs
  refine ⟨s, hreach.of_guarded, ?_⟩
  intro h
  have hline : IsLine nl (s.call.world.files.content 1) 0 2 := by
    rw [hcontent]
    decide
  obtain ⟨d, hd, -⟩ := h ⟨1, 1, 0⟩ (by simp [hclosed]) 2 hleft 0 2 hline le_rfl le_rfl
  rw [List.length_eq_zero_iff.mp hlength] at hd
  cases hd

end Blockad.Proofs
