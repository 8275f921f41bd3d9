import Blockad.Lib.Prog
import Blockad.Model.EventBuffer
import Mathlib.Data.List.Basic

/-!
# `Blockad.Proofs.EventWalk`: the walk over the bytes of one `read`

The loop of `InotifyWatcher::work` finds its way through the buffer by lengths that are in the
buffer. `Within` is what it has to be sure of: `ptr` and `n` are the two sides of a place in the
bytes that were read.

* `readHeader_encode`, `readName_encode`: a record is read back as it was written.
* `walkTurn_cases`: what one turn can do.
* `events_walked`: whole records are handled one after the other, and on any bytes the loop ends,
  keeps inside of them, and throws when they break off.
* `run_handleRaw`: the records of some events are handled like the events.
-/

set_option autoImplicit false

namespace Blockad.Proofs

open Bytes Loop Prog Sizes

/-! ### Numbers -/

section
variable (order : ByteOrder)

/-- A byte order keeps the length. -/
theorem length_arrange (bytes : Bytes) : (order.arrange bytes).length = bytes.length := by
  cases order with
  | little => rfl
  | big => exact List.length_reverse

/-- Arranging twice changes nothing. -/
theorem arrange_arrange (bytes : Bytes) : order.arrange (order.arrange bytes) = bytes := by
  cases order with
  | little => rfl
  | big => exact List.reverse_reverse bytes

/-- A word has four bytes. -/
theorem length_wordBytes (w : UInt32) : (wordBytes order w).length = 4 := length_arrange order _

/-- The bytes of a number make the number. -/
theorem ofNat_bytes (w : UInt32) :
    UInt32.ofNat ((UInt8.ofNat w.toNat).toNat + 256 * (UInt8.ofNat (w.toNat / 256)).toNat +
      65536 * (UInt8.ofNat (w.toNat / 65536)).toNat +
        16777216 * (UInt8.ofNat (w.toNat / 16777216)).toNat) = w := by
  have hlt := w.toNat_lt
  have hsum : (UInt8.ofNat w.toNat).toNat + 256 * (UInt8.ofNat (w.toNat / 256)).toNat +
      65536 * (UInt8.ofNat (w.toNat / 65536)).toNat +
        16777216 * (UInt8.ofNat (w.toNat / 16777216)).toNat = w.toNat := by
    simp only [UInt8.toNat_ofNat']
    omega
  rw [hsum, UInt32.ofNat_toNat]

/-- A number is read back after the bytes before it. -/
theorem readWord_at (before after : Bytes) (w : UInt32) :
    readWord order (before ++ (wordBytes order w ++ after)) before.length = some w := by
  unfold readWord
  have htake : (wordBytes order w ++ after).take 4 = wordBytes order w :=
    List.take_left' (length_wordBytes order w)
  rw [List.drop_left, htake]
  unfold wordBytes
  rw [arrange_arrange]
  show some (UInt32.ofNat _) = some w
  rw [ofNat_bytes]

/-- A word that is inside of the buffer can be read. -/
theorem readWord_isSome {buffer : Bytes} {offset : Nat} (h : offset + 4 ≤ buffer.length) :
    ∃ w, readWord order buffer offset = some w := by
  have hlen : (order.arrange ((buffer.drop offset).take 4)).length = 4 := by
    rw [length_arrange, List.length_take, List.length_drop]
    omega
  obtain ⟨a, b, c, d, hbytes⟩ := List.length_eq_four.mp hlen
  unfold readWord
  rw [hbytes]
  exact ⟨_, rfl⟩

/-! ### Records -/

variable {order}

/-- A record is its header and its name. -/
theorem length_encode (event : RawEvent) :
    (event.encode order).length = headerSize + event.name.length := by
  simp only [RawEvent.encode, List.length_append, length_wordBytes, headerSize]

/-- The header of a record. -/
def RawEvent.header (event : RawEvent) : Header :=
  ⟨event.wd, event.mask, event.cookie, UInt32.ofNat event.name.length⟩

/-- The header holds the length of the name. -/
theorem len_header (event : RawEvent) : (RawEvent.header event).len.toNat = event.name.length :=
  UInt32.toNat_ofNat_of_lt' event.length_lt

/-- The header of a record is read back, wherever it is in the buffer. -/
theorem readHeader_encode (before after : Bytes) (event : RawEvent) :
    readHeader order (before ++ (event.encode order ++ after)) before.length =
      some (RawEvent.header event) := by
  have hwd := readWord_at order before (wordBytes order event.mask ++
    (wordBytes order event.cookie ++ (wordBytes order (UInt32.ofNat event.name.length) ++
      (event.name ++ after)))) event.wd
  have hmask := readWord_at order (before ++ wordBytes order event.wd)
    (wordBytes order event.cookie ++ (wordBytes order (UInt32.ofNat event.name.length) ++
      (event.name ++ after))) event.mask
  have hcookie := readWord_at order
    (before ++ wordBytes order event.wd ++ wordBytes order event.mask)
    (wordBytes order (UInt32.ofNat event.name.length) ++ (event.name ++ after)) event.cookie
  have hlen := readWord_at order
    (before ++ wordBytes order event.wd ++ wordBytes order event.mask ++
      wordBytes order event.cookie) (event.name ++ after) (UInt32.ofNat event.name.length)
  simp only [List.append_assoc, List.length_append, length_wordBytes] at hwd hmask hcookie hlen
  unfold readHeader RawEvent.encode
  simp only [List.append_assoc, hwd, hmask, hcookie, hlen]
  rfl

/-- So is its name. -/
theorem readName_encode (before after : Bytes) (event : RawEvent) :
    readName (before ++ (event.encode order ++ after)) before.length (RawEvent.header event) =
      some event := by
  let head := wordBytes order event.wd ++ wordBytes order event.mask ++
    wordBytes order event.cookie ++ wordBytes order (UInt32.ofNat event.name.length)
  have hhead : (before ++ head).length = before.length + headerSize := by
    simp only [head, List.length_append, length_wordBytes, headerSize]
  have hname : ((before ++ (event.encode order ++ after)).drop (before.length + headerSize)).take
      (RawEvent.header event).len.toNat = event.name := by
    have hsplit : before ++ (event.encode order ++ after) =
        (before ++ head) ++ (event.name ++ after) := by
      simp only [RawEvent.encode, head, List.append_assoc]
    rw [hsplit, ← hhead, List.drop_left, len_header, List.take_left]
  have hlen : (((before ++ (event.encode order ++ after)).drop (before.length + headerSize)).take
      (RawEvent.header event).len.toNat).length = (RawEvent.header event).len.toNat := by
    rw [hname, len_header]
  unfold readName
  dsimp only
  rw [dif_pos hlen]
  exact congrArg some (RawEvent.ext rfl rfl rfl hname)

/-- A header that is inside of the buffer can be read. -/
theorem readHeader_isSome {buffer : Bytes} {ptr : Nat} (h : ptr + headerSize ≤ buffer.length) :
    ∃ header, readHeader order buffer ptr = some header := by
  unfold headerSize at h
  obtain ⟨wd, hwd⟩ := @readWord_isSome order buffer ptr (by omega)
  obtain ⟨mask, hmask⟩ := @readWord_isSome order buffer (ptr + 4) (by omega)
  obtain ⟨cookie, hcookie⟩ := @readWord_isSome order buffer (ptr + 8) (by omega)
  obtain ⟨len, hlen⟩ := @readWord_isSome order buffer (ptr + 12) (by omega)
  refine ⟨⟨wd, mask, cookie, len⟩, ?_⟩
  unfold readHeader
  rw [hwd, hmask, hcookie, hlen]
  rfl

/-- So can a name that is. -/
theorem readName_isSome {buffer : Bytes} {ptr : Nat} {header : Header}
    (h : ptr + (headerSize + header.len.toNat) ≤ buffer.length) :
    ∃ event, readName buffer ptr header = some event ∧
      event.name.length = header.len.toNat := by
  have hlen : ((buffer.drop (ptr + headerSize)).take header.len.toNat).length
      = header.len.toNat := by
    rw [List.length_take, List.length_drop]
    omega
  unfold readName
  dsimp only
  rw [dif_pos hlen]
  exact ⟨_, rfl, hlen⟩

end

/-! ### One turn -/

/-- The size of a record does not wrap. -/
theorem addSize_header (header : Header) :
    addSize headerSize header.len.toNat = headerSize + header.len.toNat := by
  have hlt := header.len.toNat_lt
  unfold headerSize
  exact addSize_of_lt (by omega)

section
variable {σ : Type} {order : ByteOrder} {buffer : Bytes} {handle : RawEvent → σ → σ}

/-- `ptr` is inside of the bytes that were read, and `n` is the number of those after it. -/
structure Within (buffer : Bytes) (w : Walk σ) : Prop where
  size : buffer.length ≤ 4096
  ptr_le : w.ptr ≤ buffer.length
  n_eq : w.n = (buffer.length - w.ptr : Nat)

/-- The bytes break off: there are some, but too few for a header, or for the length that the
header declares. -/
def Truncated (order : ByteOrder) (buffer : Bytes) (ptr : Nat) : Prop :=
  ptr < buffer.length ∧ (buffer.length < ptr + headerSize ∨
    ∃ header, readHeader order buffer ptr = some header ∧
      buffer.length < ptr + (headerSize + header.len.toNat))

/-- **One turn.** -/
inductive WalkCase (order : ByteOrder) (buffer : Bytes) (handle : RawEvent → σ → σ) (w : Walk σ) :
    Turn (Walk σ) (Except Halt Unit × Walk σ) → Prop where
  | finished (h : w.ptr = buffer.length) : WalkCase order buffer handle w (.done (.ok (), w))
  | short (h : Truncated order buffer w.ptr) :
      WalkCase order buffer handle w (.done (.error shortRead, w))
  | handled {w' : Walk σ} {header : Header} {event : RawEvent}
      (hheader : readHeader order buffer w.ptr = some header)
      (hname : readName buffer w.ptr header = some event)
      (hlen : event.name.length = header.len.toNat)
      (hptr : w'.ptr = w.ptr + (headerSize + event.name.length)) (hwithin : Within buffer w')
      (hstate : w'.state = handle event w.state) : WalkCase order buffer handle w (.next w')

/-- The end of the buffer, a record that does not fit, or one more record. -/
theorem walkTurn_cases {w : Walk σ} {turn : Turn (Walk σ) (Except Halt Unit × Walk σ)}
    (hw : Within buffer w) (hturn : walkTurn order buffer handle w = turn) :
    WalkCase order buffer handle w turn := by
  obtain ⟨hsize, hptr, hn⟩ := hw
  -- `n` is below 4096, so the conversions between `int` and `size_t` change no value.
  have hrest : toSize w.n = buffer.length - w.ptr := by
    rw [toSize_of_lt (by omega) (by omega), hn]
    rfl
  rw [← hturn]
  unfold walkTurn
  by_cases hpos : w.n > 0
  · rw [if_pos hpos, hrest]
    by_cases hshort : buffer.length - w.ptr < headerSize
    · rw [if_pos hshort]
      exact .short ⟨by omega, .inl (by omega)⟩
    · rw [if_neg hshort]
      obtain ⟨header, hheader⟩ := @readHeader_isSome order buffer w.ptr (by omega)
      rw [hheader]
      dsimp only
      rw [addSize_header]
      by_cases hlong : buffer.length - w.ptr < headerSize + header.len.toNat
      · rw [if_pos hlong]
        exact .short ⟨by omega, .inr ⟨header, hheader, by omega⟩⟩
      · rw [if_neg hlong]
        obtain ⟨event, hname, hevent⟩ := @readName_isSome buffer w.ptr header (by omega)
        have hleft : toInt (subSize (buffer.length - w.ptr) (headerSize + header.len.toNat)) =
            (buffer.length - (w.ptr + (headerSize + header.len.toNat)) : Nat) := by
          rw [subSize_of_le (by omega) (by omega), toInt_of_lt (by omega), Nat.sub_sub]
        rw [hname, hleft]
        refine .handled hheader hname hevent (by rw [hevent]) ⟨hsize, ?_, rfl⟩ rfl
        show w.ptr + (headerSize + header.len.toNat) ≤ buffer.length
        omega
  · rw [if_neg hpos]
    exact .finished (by omega)

/-- The rest of the buffer after a record that it begins with. -/
theorem walkTurn_encode {before after : Bytes} {event : RawEvent} {state : σ}
    (hsize : (before ++ (event.encode order ++ after)).length ≤ 4096) :
    walkTurn order (before ++ (event.encode order ++ after)) handle
        ⟨before.length, (event.encode order ++ after).length, state⟩ =
      .next ⟨(before ++ event.encode order).length, after.length, handle event state⟩ := by
  have hlen := @length_encode order event
  have hheader := @readHeader_encode order before after event
  have hwithin : Within (before ++ (event.encode order ++ after))
      ⟨before.length, (event.encode order ++ after).length, state⟩ := by
    refine ⟨hsize, ?_, ?_⟩
    · show before.length ≤ _
      rw [List.length_append]
      omega
    · show ((event.encode order ++ after).length : Int) = _
      simp only [List.length_append]
      omega
  simp only [List.length_append] at hsize
  cases hturn : walkTurn order (before ++ (event.encode order ++ after)) handle
      ⟨before.length, (event.encode order ++ after).length, state⟩ with
  | done result =>
    -- The loop would leave before a whole record.
    cases walkTurn_cases hwithin hturn with
    | finished h =>
      replace h : before.length = _ := h
      simp only [List.length_append, hlen, headerSize] at h
      omega
    | short h =>
      obtain ⟨-, hshort | ⟨header, hheader', hlong⟩⟩ := h
      · simp only [List.length_append, hlen] at hshort
        omega
      · rw [hheader] at hheader'
        cases hheader'
        rw [len_header] at hlong
        simp only [List.length_append, hlen] at hlong
        omega
  | next w' =>
    cases walkTurn_cases hwithin hturn with
    | handled hheader' hname _ hptr hwithin' hstate =>
      rw [hheader] at hheader'
      cases hheader'
      rw [readName_encode] at hname
      cases hname
      obtain ⟨-, -, hn⟩ := hwithin'
      cases w' with
      | mk ptr n state' =>
        dsimp only at hptr hn hstate
        rw [hptr] at hn
        simp only [List.length_append, hlen] at hn
        rw [hn, hptr, hstate, List.length_append, hlen]
        congr 2
        omega

/-- The records from an offset on. -/
theorem run_records {events : List RawEvent} {before : Bytes} {state : σ} {fuel : Nat}
    (hsize : (before ++ events.flatMap (RawEvent.encode order)).length ≤ 4096)
    (hfuel : events.length < fuel) :
    run (walkTurn order (before ++ events.flatMap (RawEvent.encode order)) handle) fuel
        ⟨before.length, (events.flatMap (RawEvent.encode order)).length, state⟩ =
      some (.ok (), ⟨(before ++ events.flatMap (RawEvent.encode order)).length, 0,
        events.foldl (fun s event => handle event s) state⟩) := by
  induction events generalizing before state fuel with
  | nil =>
    obtain ⟨fuel, rfl⟩ : ∃ k, fuel = k + 1 := ⟨fuel - 1, by omega⟩
    rw [List.flatMap_nil, List.append_nil]
    exact run_of_done rfl
  | cons event events ih =>
    obtain ⟨fuel, rfl⟩ : ∃ k, fuel = k + 1 := ⟨fuel - 1, by omega⟩
    rw [List.length_cons] at hfuel
    rw [List.flatMap_cons] at hsize ⊢
    rw [run_of_next (walkTurn_encode hsize), List.foldl_cons]
    rw [← List.append_assoc] at hsize ⊢
    exact ih hsize (by omega)

/-- The walk starts inside of the buffer. -/
theorem within_walkStart (h : buffer.length ≤ 4096) (state : σ) :
    Within buffer (walkStart buffer state) := by
  refine ⟨h, Nat.zero_le _, ?_⟩
  show (buffer.length : Int) = (buffer.length - 0 : Nat)
  rw [Nat.sub_zero]

/-- It stays there. -/
theorem within_of_visits {state : σ} {w : Walk σ} (h : buffer.length ≤ 4096)
    (hw : Visits (walkTurn order buffer handle) (walkStart buffer state) w) : Within buffer w := by
  refine hw.invariant (within_walkStart h state) fun w w' hw hturn => ?_
  cases walkTurn_cases hw hturn with
  | handled _ _ _ _ hwithin => exact hwithin

/-- A turn throws when the bytes break off. -/
theorem walkTurn_eq_shortRead_iff {w : Walk σ} (hw : Within buffer w) :
    walkTurn order buffer handle w = .done (.error shortRead, w) ↔
      Truncated order buffer w.ptr := by
  cases hturn : walkTurn order buffer handle w with
  | next w' =>
    cases walkTurn_cases hw hturn with
    | handled hheader hname hlen hptr hwithin _ =>
      refine ⟨fun heq => by contradiction, fun htruncated => ?_⟩
      -- The record that was handled ends before the bytes that were read.
      obtain ⟨hlt, h⟩ := htruncated
      have hle := hwithin.ptr_le
      rw [hptr, hlen] at hle
      obtain hshort | ⟨header, hheader', hlong⟩ := h
      · omega
      · rw [hheader] at hheader'
        cases hheader'
        omega
  | done result =>
    cases walkTurn_cases hw hturn with
    | finished h =>
      refine ⟨fun heq => ?_, fun htruncated => ?_⟩
      · cases heq
      · obtain ⟨hlt, -⟩ := htruncated
        omega
    | short h => exact ⟨fun _ => h, fun _ => rfl⟩

/-- The bytes after `ptr` are fewer after every turn. -/
theorem walk_ends (h : buffer.length ≤ 4096) (state : σ) {fuel : Nat}
    (hfuel : buffer.length < fuel) :
    ∃ result w, run (walkTurn order buffer handle) fuel (walkStart buffer state) =
        some (result, w) ∧ Within buffer w ∧
      (result = .ok () ∧ w.n = 0 ∨ result = .error shortRead ∧ Truncated order buffer w.ptr) := by
  let post (b : Except Halt Unit × Walk σ) : Prop := Within buffer b.2 ∧
    (b.1 = .ok () ∧ b.2.n = 0 ∨ b.1 = .error shortRead ∧ Truncated order buffer b.2.ptr)
  -- Even a record without a name takes the bytes of its header.
  have hnext : ∀ w w', Within buffer w → walkTurn order buffer handle w = .next w' →
      Within buffer w' ∧ buffer.length - w'.ptr < buffer.length - w.ptr := by
    intro w w' hw hturn
    cases walkTurn_cases hw hturn with
    | handled _ _ _ hptr hwithin _ =>
      have hle := hwithin.ptr_le
      unfold headerSize at hptr
      exact ⟨hwithin, by omega⟩
  have hdone : ∀ w b, Within buffer w → walkTurn order buffer handle w = .done b → post b := by
    intro w b hw hturn
    cases walkTurn_cases hw hturn with
    | finished hptr =>
      refine ⟨hw, .inl ⟨rfl, ?_⟩⟩
      rw [hw.n_eq, hptr, Nat.sub_self]
      rfl
    | short hshort => exact ⟨hw, .inr ⟨rfl, hshort⟩⟩
  obtain ⟨⟨result, w⟩, hrun, hw⟩ := @exists_of_measure _ _ _ _ _ _
    (fun w => buffer.length - w.ptr) _ hnext hdone (within_walkStart h state) hfuel
  exact ⟨result, w, hrun, hw⟩

/-- **The walk over the events.** Records are handled once each and in order; on any bytes the
loop ends, stays inside of them, and throws exactly where they break off. -/
theorem events_walked (order : ByteOrder) (handle : RawEvent → σ → σ) (state : σ) :
    (∀ events : List RawEvent, (events.flatMap (RawEvent.encode order)).length ≤ 4096 →
      ∃ fuel w, run (walkTurn order (events.flatMap (RawEvent.encode order)) handle) fuel
          (walkStart (events.flatMap (RawEvent.encode order)) state) = some (.ok (), w) ∧
        w.n = 0 ∧ w.state = events.foldl (fun s event => handle event s) state) ∧
    ∀ buffer : Bytes, buffer.length ≤ 4096 →
      (∃ fuel result w, run (walkTurn order buffer handle) fuel (walkStart buffer state) =
          some (result, w) ∧
        (result = .ok () ∧ w.n = 0 ∨ result = .error shortRead ∧ Truncated order buffer w.ptr)) ∧
      ∀ w, Visits (walkTurn order buffer handle) (walkStart buffer state) w →
        0 ≤ w.n ∧ w.ptr + w.n = buffer.length ∧
        (∀ w', walkTurn order buffer handle w ≠ .done (.error .undefined, w')) ∧
        (walkTurn order buffer handle w = .done (.error shortRead, w) ↔
          Truncated order buffer w.ptr) := by
  refine ⟨fun events hsize => ?_, fun buffer hsize => ⟨?_, fun w hw => ?_⟩⟩
  · exact ⟨events.length + 1, _, @run_records σ order handle events [] state _ hsize (by omega),
      rfl, rfl⟩
  · obtain ⟨result, w, hrun, -, hend⟩ :=
      @walk_ends σ order buffer handle hsize state _ (Nat.lt_succ_self _)
    exact ⟨_, result, w, hrun, hend⟩
  · have hwithin := within_of_visits hsize hw
    have hptr := hwithin.ptr_le
    have hn := hwithin.n_eq
    refine ⟨by omega, by omega, fun w' hturn => ?_, walkTurn_eq_shortRead_iff hwithin⟩
    cases walkTurn_cases hwithin hturn

/-- A change of the file, and the creation of a file in the directory. -/
def twoRecords : List RawEvent :=
  [⟨1, 0x2, 0, [], by decide⟩, ⟨2, 0x100, 0, lit "ab" ++ [0, 0], by decide⟩]

/-- A buffer with two records. -/
theorem events_walked_two :
    ∃ fuel w, run (walkTurn .little (twoRecords.flatMap (RawEvent.encode .little))
        fun (event : RawEvent) wds => wds ++ [event.wd]) fuel
          (walkStart (twoRecords.flatMap (RawEvent.encode .little)) []) = some (.ok (), w) ∧
      w.n = 0 ∧ w.state = [1, 2] :=
  (events_walked .little (fun event wds => wds ++ [event.wd]) []).1 twoRecords (by decide)

end

/-! ### The handling of the records -/

section
open InotifyWatcher

variable {H α W : Type} {os : Syscalls H W} {callback : Callback H α} {raw : RawEvent}
  {event : InotifyEvent}

/-- The test of the mask is about the two kinds of events. -/
theorem isSelf_iff (h : raw.Shows event) :
    (raw.mask &&& (EventKind.moveSelf.bit ||| EventKind.deleteSelf.bit) != 0) =
      (event.mask == .moveSelf || event.mask == .deleteSelf) := by
  have hself : EventKind.moveSelf.bit ||| EventKind.deleteSelf.bit =
      ~~~inIsDir &&& (EventKind.moveSelf.bit ||| EventKind.deleteSelf.bit) := by decide
  rw [hself, ← UInt32.and_assoc, h.mask]
  cases event.mask <;> rfl

/-- A record is handled like the event that it shows. -/
theorem handleRaw_eq (h : raw.Shows event) :
    handleRaw os callback raw = handleEvent os callback event := by
  have hlength : (raw.name.length != 0) = !event.name.isEmpty := by
    have hname := h.length
    cases hraw : raw.name with
    | nil =>
      rw [hname.mp hraw]
      rfl
    | cons c rest =>
      cases hevent : event.name with
      | nil =>
        rw [hname.mpr hevent] at hraw
        cases hraw
      | cons d rest' => rfl
  have hfile : fileRaw os callback raw = fileEvent os callback event := by
    unfold fileRaw
    rw [h.wd, isSelf_iff h]
    rfl
  have hdir : dirRaw os callback raw = dirEvent os callback event := by
    unfold dirRaw
    rw [h.wd, hlength, h.name]
    rfl
  unfold handleRaw
  rw [hfile, hdir]
  rfl

/-- So are some records. -/
theorem foldl_handleRaw {raws : List RawEvent} {events : List InotifyEvent}
    (h : List.Forall₂ RawEvent.Shows raws events) {s s' : Call H Inotify α W}
    (hrun : events.forM (handleEvent os callback) s = .ok () s') :
    raws.foldl (fun s raw => stateOf (handleRaw os callback raw s)) s = s' := by
  induction h generalizing s with
  | nil =>
    cases hrun
    rfl
  | cons hshows _ ih =>
    rw [List.forM_eq_forM, List.forM_cons] at hrun
    obtain ⟨⟨⟩, s₁, hhead, hrest⟩ := bind_eq_ok_iff.mp hrun
    rw [List.foldl_cons, handleRaw_eq hshows, hhead]
    exact ih hrest

/-- The walk over the records of some events ends like the loop over the events. -/
theorem run_handleRaw {raws : List RawEvent} {events : List InotifyEvent}
    (h : List.Forall₂ RawEvent.Shows raws events) (order : ByteOrder)
    (hsize : (raws.flatMap (RawEvent.encode order)).length ≤ 4096) {s s' : Call H Inotify α W}
    (hrun : events.forM (handleEvent os callback) s = .ok () s') :
    ∃ fuel w, run (walkTurn order (raws.flatMap (RawEvent.encode order))
        fun raw s => stateOf (handleRaw os callback raw s)) fuel
          (walkStart (raws.flatMap (RawEvent.encode order)) s) = some (.ok (), w) ∧
      w.state = s' :=
  ⟨raws.length + 1, _, @run_records _ order _ raws [] s _ hsize (Nat.lt_succ_self _),
    foldl_handleRaw h hrun⟩

end

end Blockad.Proofs
