import Blockad.Lib.Loop
import Blockad.Lib.Sizes
import Blockad.Model.InotifyWatcher

/-!
# `Blockad.Model.EventBuffer`: the bytes that `InotifyWatcher::work` reads

A `read` of the inotify descriptor fills a buffer with records of different lengths. Each of them
is a header and a name, and the header has the length of the name. `walkTurn` is one turn of the
loop of `work` over the buffer, with the conversions between `int` and a 64-bit `size_t` that it
makes. It only knows the bytes that were read: to look at any other is undefined behavior.

`handleRaw` is what the loop does with one record. `Shows` says which event a record is about.
-/

set_option autoImplicit false

namespace Blockad

open Bytes Loop Sizes

/-! ### Records -/

/-- The order of the bytes of a number in memory. -/
inductive ByteOrder where
  | little
  | big
  deriving DecidableEq, Repr

/-- The bytes of a number, from the least one on, as they are in memory, and back. -/
def ByteOrder.arrange : ByteOrder → Bytes → Bytes
  | .little, bytes => bytes
  | .big, bytes => bytes.reverse

/-- `struct inotify_event`, with the bytes of the name. -/
@[ext]
structure RawEvent where
  wd : UInt32
  mask : UInt32
  cookie : UInt32
  name : Bytes
  length_lt : name.length < 0x100000000

/-- The members of `struct inotify_event` before the name. -/
structure Header where
  wd : UInt32
  mask : UInt32
  cookie : UInt32
  len : UInt32

/-- `sizeof(struct inotify_event)`. -/
def headerSize : Nat := 16

section
variable (order : ByteOrder)

/-- The bytes of a 32-bit number. -/
def wordBytes (w : UInt32) : Bytes :=
  order.arrange [UInt8.ofNat w.toNat, UInt8.ofNat (w.toNat / 256),
    UInt8.ofNat (w.toNat / 65536), UInt8.ofNat (w.toNat / 16777216)]

/-- The 32-bit number at an offset. -/
def readWord (buffer : Bytes) (offset : Nat) : Option UInt32 :=
  match order.arrange ((buffer.drop offset).take 4) with
  | [a, b, c, d] =>
    some (UInt32.ofNat (a.toNat + 256 * b.toNat + 65536 * c.toNat + 16777216 * d.toNat))
  | _ => none

/-- The bytes of a record. -/
def RawEvent.encode (event : RawEvent) : Bytes :=
  wordBytes order event.wd ++ wordBytes order event.mask ++ wordBytes order event.cookie ++
    wordBytes order (UInt32.ofNat event.name.length) ++ event.name

/-- The header at an offset. -/
def readHeader (buffer : Bytes) (ptr : Nat) : Option Header := do
  let wd ← readWord order buffer ptr
  let mask ← readWord order buffer (ptr + 4)
  let cookie ← readWord order buffer (ptr + 8)
  let len ← readWord order buffer (ptr + 12)
  return { wd, mask, cookie, len }

end

/-- The record with this header, if its name was read. -/
def readName (buffer : Bytes) (ptr : Nat) (header : Header) : Option RawEvent :=
  let name := (buffer.drop (ptr + headerSize)).take header.len.toNat
  if h : name.length = header.len.toNat then
    some
      { wd := header.wd, mask := header.mask, cookie := header.cookie, name
        length_lt := h ▸ header.len.toNat_lt }
  else none

/-! ### The loop -/

/-- The variables of the loop: the offset of `ptr` in the buffer, `n`, and what the handling of
the events works on. -/
structure Walk (σ : Type) where
  ptr : Nat
  n : Int
  state : σ

/-- `throw Watcher::SystemError("short read from inotify fd")`. -/
def shortRead : Halt := .thrown (.watcherSystemError (lit "short read from inotify fd") none)

/-- One turn of the loop of `InotifyWatcher::work`, over the bytes that were read. The handling of
an event returns normally. -/
def walkTurn {σ : Type} (order : ByteOrder) (buffer : Bytes) (handle : RawEvent → σ → σ)
    (w : Walk σ) : Turn (Walk σ) (Except Halt Unit × Walk σ) :=
  if w.n > 0 then
    -- Make sure we have a whole event
    if toSize w.n < headerSize then .done (.error shortRead, w)
    else
      match readHeader order buffer w.ptr with
      | none => .done (.error .undefined, w)
      | some header =>
        let total := addSize headerSize header.len.toNat
        if toSize w.n < total then .done (.error shortRead, w)
        else
          match readName buffer w.ptr header with
          | none => .done (.error .undefined, w)
          | some event =>
            .next
              { ptr := w.ptr + total
                n := toInt (subSize (toSize w.n) total)
                state := handle event w.state }
  else .done (.ok (), w)

/-- The variables at the start of the loop. -/
def walkStart {σ : Type} (buffer : Bytes) (state : σ) : Walk σ := ⟨0, buffer.length, state⟩

/-! ### The handling of a record -/

/-- `IN_MODIFY`, and the other bits of a mask. -/
def EventKind.bit : EventKind → UInt32
  | .modify => 0x2
  | .moveSelf => 0x800
  | .deleteSelf => 0x400
  | .create => 0x100
  | .delete => 0x200
  | .movedFrom => 0x40
  | .movedTo => 0x80
  | .ignored => 0x8000
  | .queueOverflow => 0x4000

/-- `IN_ISDIR`. -/
def inIsDir : UInt32 := 0x40000000

/-- `event.wd`. -/
def RawEvent.wdInt (event : RawEvent) : Int := event.wd.toInt32.toInt

namespace InotifyWatcher

open Watcher

variable {H α W : Type} (os : Syscalls H W) (callback : Callback H α) (event : RawEvent)

/-- What the loop does with a record of the watched file. -/
def fileRaw : Prog H Inotify α W Unit := do
  if event.wdInt == (← self).own.fileWd then
    readLines os callback (closeFile os callback)
    if event.mask &&& (EventKind.moveSelf.bit ||| EventKind.deleteSelf.bit) != 0 then
      closeFile os callback

/-- What the loop does with a record of the directory. -/
def dirRaw : Prog H Inotify α W Unit := do
  let own := (← self).own
  if event.wdInt == own.dirWd && event.name.length != 0 && cstr event.name == cstr own.base then
    closeFile os callback
    openFile os
    if (← self).fp.isSome then
      readLines os callback (closeFile os callback)

/-- The body of the loop of `InotifyWatcher::work`. -/
def handleRaw : Prog H Inotify α W Unit := do
  fileRaw os callback event
  dirRaw os callback event

end InotifyWatcher

/-- The record is about the event. A name is padded with NULs; only an event without one has
length zero. -/
structure RawEvent.Shows (raw : RawEvent) (event : InotifyEvent) : Prop where
  wd : raw.wdInt = event.wd
  mask : raw.mask &&& ~~~inIsDir = event.mask.bit
  name : cstr raw.name = event.name
  length : raw.name = [] ↔ event.name = []

end Blockad
