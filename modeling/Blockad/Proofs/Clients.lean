import Blockad.Lib.Relates
import Blockad.Model.Main
import Blockad.Proofs.Watcher
import Mathlib.Data.Option.Basic

/-!
# `Blockad.Proofs.Clients`: one watcher with two clients

`Blockad.Proofs.Delivery` says which lines a watcher delivers. Here two clients are compared, whose
callbacks agree on related states. The watcher does the same for both, and their states are
related again at the end, also when one of the callbacks threw.

* `relates_work`: `work` of an `InotifyWatcher`.
* `relates_checkWatchers`: the pass of the main loop.
-/

set_option autoImplicit false

namespace Blockad.Proofs

open Prog Watcher InotifyWatcher

/-! ### The base class -/

section
variable {H ω W α β γ : Type} {rel : α → β → Prop} {after : Option (α → β → Prop)}

/-- The same watcher, with related clients. -/
def WithClients (rel : α → β → Prop) (s : Call H ω α W) (t : Call H ω β W) : Prop :=
  s.self = t.self ∧ s.world = t.world ∧ rel s.client t.client

/-- The callbacks agree on related clients. -/
structure Callbacks (rel : α → β → Prop) (after : Option (α → β → Prop)) (f : Callback H α)
    (g : Callback H β) : Prop where
  agree : ∀ fp line, Relates rel after (f fp line) (g fp line)
  weaken : ∀ rel' ∈ after, ∀ a b, rel a b → rel' a b

/-- The watchers are the same. -/
theorem relates_self :
    Relates (WithClients rel) (after.map WithClients) (self : Prog H ω α W (Watcher H ω)) self := by
  intro s t hs
  exact ⟨hs.1, hs⟩

/-- So are the worlds. -/
theorem relates_observe (f : W → γ) :
    Relates (WithClients rel) (after.map WithClients) (observe f : Prog H ω α W γ) (observe f) := by
  intro s t hs
  exact ⟨congrArg f hs.2.1, hs⟩

/-- An assignment has no part in the clients. -/
theorem relates_assign (f : Watcher H ω → Watcher H ω) :
    Relates (WithClients rel) (after.map WithClients) (assign f : Prog H ω α W Unit) (assign f) :=
  .of_modify fun _ _ hs => ⟨congrArg f hs.1, hs.2⟩

/-- Nor has a system call that cannot fail. -/
theorem relates_sysVoid (f : W → W) :
    Relates (WithClients rel) (after.map WithClients) (sysVoid f : Prog H ω α W Unit) (sysVoid f) :=
  .of_modify fun _ _ hs => ⟨hs.1, congrArg f hs.2.1, hs.2.2⟩

/-- Nor has one that can, if the handling of its failure has none. -/
theorem relates_sys {call : EStateM Errno W γ} {fail : Errno → Prog H ω α W γ}
    {fail' : Errno → Prog H ω β W γ}
    (h : ∀ errno, Relates (WithClients rel) (after.map WithClients) (fail errno) (fail' errno)) :
    Relates (WithClients rel) (after.map WithClients) (sys call fail) (sys call fail') := by
  rintro ⟨self, a, world⟩ ⟨_, b, _⟩ ⟨rfl, rfl, hab⟩
  cases hcall : call world with
  | ok c world' =>
    rw [sys_of_ok hcall, sys_of_ok hcall]
    exact ⟨rfl, rfl, rfl, hab⟩
  | error errno world' =>
    rw [sys_of_error hcall, sys_of_error hcall]
    exact h errno _ _ ⟨rfl, rfl, hab⟩

variable {f : Callback H α} {g : Callback H β} (h : Callbacks rel after f g)
include h

/-- An exception of the watcher is thrown on both sides. -/
theorem relates_throw (e : Halt) :
    Relates (WithClients rel) (after.map WithClients) (throw e : Prog H ω α W γ) (throw e) :=
  .of_throw (Option.forall_mem_map.mpr fun rel' hrel' _ _ hs =>
    ⟨hs.1, hs.2.1, h.weaken rel' hrel' _ _ hs.2.2⟩) e

/-- The one operation that calls the client. -/
theorem relates_processLine : Relates (WithClients rel) (after.map WithClients)
    (Watcher.processLine f : Prog H ω α W Unit) (Watcher.processLine g) := by
  rintro ⟨self, a, world⟩ ⟨_, b, _⟩ ⟨rfl, rfl, hab⟩
  have hcall := h.agree self.fp self.line a b hab
  cases hg : g self.fp self.line b with
  | ok u b' =>
    rw [hg] at hcall
    obtain ⟨a', hf, hab'⟩ := hcall.of_ok
    rw [processLine_of_ok hf, processLine_of_ok hg]
    exact ⟨rfl, rfl, rfl, hab'⟩
  | error e b' =>
    rw [hg] at hcall
    have hcalled : Watcher.processLine g (⟨self, b, world⟩ : Call H ω β W) =
        .error e ⟨self, b', world⟩ := processLine_of_error hg
    rw [hcalled]
    refine endsAlike_error.mpr (Option.forall_mem_map.mpr fun rel' hrel' => ?_)
    obtain ⟨a', hf, hab'⟩ := endsAlike_error.mp hcall rel' hrel'
    exact ⟨_, processLine_of_error hf, rfl, rfl, hab'⟩

/-- By induction on the bytes. -/
theorem relates_readBytes {close : Prog H ω α W Unit} {close' : Prog H ω β W Unit}
    (hclose : Relates (WithClients rel) (after.map WithClients) close close') (error : Option Errno)
    (bytes : Bytes) :
    Relates (WithClients rel) (after.map WithClients) (readBytes f close error bytes)
      (readBytes g close' error bytes) := by
  induction bytes with
  | nil =>
    rw [readBytes_nil, readBytes_nil]
    cases error with
    | none => exact .of_pure _
    | some errno => exact hclose.bind fun _ => relates_self.bind fun _ => relates_throw h _
  | cons c rest ih =>
    rw [readBytes_cons, readBytes_cons]
    refine (relates_assign _).bind fun _ => .ite ?_ ih
    exact (relates_processLine h).bind fun _ => (relates_assign _).bind fun _ => ih

/-- Both clients get the same lines. -/
theorem relates_readLines (os : Syscalls H W) {close : Prog H ω α W Unit}
    {close' : Prog H ω β W Unit}
    (hclose : Relates (WithClients rel) (after.map WithClients) close close') :
    Relates (WithClients rel) (after.map WithClients) (readLines os f close)
      (readLines os g close') := by
  refine relates_self.bind fun w => ?_
  cases w.fp with
  | none => exact relates_throw h _
  | some file => exact (relates_observe _).bind fun _ => relates_readBytes h hclose _ _

end

/-! ### `InotifyWatcher` -/

section
variable {H W α β : Type} {rel : α → β → Prop} {after : Option (α → β → Prop)}
  {f : Callback H α} {g : Callback H β} (h : Callbacks rel after f g) (os : Syscalls H W)
include h

/-- Opening delivers nothing. -/
theorem relates_openFile : Relates (WithClients rel) (after.map WithClients)
    (openFile os : Prog H Inotify α W Unit) (openFile os) := by
  refine relates_self.bind fun w => relates_self.bind fun _ => .ite ?_ (.of_pure _)
  refine (relates_sys fun _ => .ite (relates_throw h _) (.of_pure _)).bind fun fp => ?_
  cases fp with
  | none => exact .of_pure _
  | some handle =>
    refine (relates_assign _).bind fun _ => ?_
    exact (relates_sys fun _ => relates_throw h _).bind fun _ => relates_assign _

/-- Both clients get the line that was begun. -/
theorem relates_closeFile :
    Relates (WithClients rel) (after.map WithClients) (closeFile os f) (closeFile os g) := by
  have hflush : Relates (WithClients rel) (after.map WithClients)
      (flushLine f : Prog H Inotify α W Unit) (flushLine g) := by
    refine relates_self.bind fun _ => .ite ?_ (.of_pure _)
    exact (relates_processLine h).bind fun _ => relates_assign _
  have hremove : Relates (WithClients rel) (after.map WithClients)
      (removeWatch os : Prog H Inotify α W Unit) (removeWatch os) := by
    refine relates_self.bind fun _ => .ite ?_ (.of_pure _)
    refine (relates_sys fun errno => ?_).bind fun _ => relates_assign _
    refine (relates_assign _).bind fun _ => .ite ?_ (.of_pure _)
    exact relates_self.bind fun _ => relates_throw h _
  refine relates_self.bind fun w => ?_
  cases w.fp with
  | none => exact .of_pure _
  | some file =>
    exact hflush.bind fun _ => hremove.bind fun _ => (relates_sysVoid _).bind fun _ =>
      relates_assign _

/-- **A watcher does the same for related clients.** -/
theorem relates_work :
    Relates (WithClients rel) (after.map WithClients) (work os f) (work os g) := by
  have hclose := relates_closeFile h os
  have hread := relates_readLines h os hclose
  refine relates_self.bind fun w => ?_
  refine (relates_sys fun _ => .ite (relates_throw h _) (.of_pure _)).bind fun events => ?_
  refine .forM fun event => Relates.bind ?_ fun _ => ?_
  · refine relates_self.bind fun _ => .ite ?_ (.of_pure _)
    exact hread.bind fun _ => .ite hclose (.of_pure _)
  · refine relates_self.bind fun _ => .ite ?_ (.of_pure _)
    refine hclose.bind fun _ => (relates_openFile h os).bind fun _ => relates_self.bind fun _ => ?_
    exact .ite hread (.of_pure _)

/-- The same world, with related clients. -/
def InPass (rel : α → β → Prop) (s : α × W) (t : β × W) : Prop := s.2 = t.2 ∧ rel s.1 t.1

/-- **One turn** of the loop over the watchers. -/
theorem relates_checkWatcher (ready : Bool) (watcher : InotifyWatcher H) :
    Relates (InPass rel) (after.map InPass) (checkWatcher os f ready watcher)
      (checkWatcher os g ready watcher) := by
  rintro ⟨a, world⟩ ⟨b, _⟩ ⟨rfl, hab⟩
  unfold checkWatcher
  dsimp only
  split
  · have hwork := relates_work h os ⟨watcher, a, world⟩ ⟨watcher, b, world⟩ ⟨rfl, rfl, hab⟩
    cases hg : work os g ⟨watcher, b, world⟩ with
    | ok u t =>
      rw [hg] at hwork
      obtain ⟨s, hf, hself, hworld, hab'⟩ := hwork.of_ok
      rw [hf]
      exact ⟨hself, hworld, hab'⟩
    | error e t =>
      rw [hg] at hwork
      have hthrown := Option.forall_mem_map.mp (endsAlike_error.mp hwork)
      refine endsAlike_error.mpr (Option.forall_mem_map.mpr fun rel' hrel' => ?_)
      obtain ⟨s, hf, hself, hworld, hab'⟩ := hthrown rel' hrel'
      rw [hf]
      exact ⟨_, rfl, hworld, hab'⟩
  · exact ⟨rfl, rfl, hab⟩

/-- **The pass of the main loop** does the same for related clients. -/
theorem relates_checkWatchers (ready : Nat → Bool) (i : Nat) (watchers : List (InotifyWatcher H)) :
    Relates (InPass rel) (after.map InPass) (checkWatchers os f ready i watchers)
      (checkWatchers os g ready i watchers) := by
  induction watchers generalizing i with
  | nil => exact .of_pure _
  | cons watcher watchers ih =>
    exact (relates_checkWatcher h os (ready i) watcher).bind fun _ => (ih (i + 1)).bind fun _ =>
      .of_pure _

end

end Blockad.Proofs
