import Blockad.Lib.Prog
import Blockad.Model.InotifyWatcher

/-!
# `Blockad.Proofs.Watcher`: what every operation of a watcher leaves alone

* `sys_ends`: the two ways a system call can end.
* `keeps_path_work`, `path_of_construct`: the path of a watcher is the one it was made for.
-/

set_option autoImplicit false

namespace Blockad.Proofs

open Bytes Prog Watcher InotifyWatcher

/-! ### System calls -/

section
variable {H ω α W β : Type} {call : EStateM Errno W β} {fail : Errno → Prog H ω α W β}
  {s : Call H ω α W} {world : W}

/-- A system call that succeeds. -/
theorem sys_of_ok {b : β} (h : call s.world = .ok b world) :
    sys call fail s = .ok b { s with world } := by
  rw [sys, h]

/-- A system call that fails, and what handles its failure. -/
theorem sys_of_error {errno : Errno} (h : call s.world = .error errno world) :
    sys call fail s = fail errno { s with world } := by
  rw [sys, h]

/-- A system call returns, or its failure is handled. -/
theorem sys_ends {post : β → Call H ω α W → Prop} {fl : Halt → Call H ω α W → Prop}
    (hok : ∀ b world, call s.world = .ok b world → post b { s with world })
    (hfail : ∀ errno world, call s.world = .error errno world →
      Ends post fl (fail errno { s with world })) : Ends post fl (sys call fail s) := by
  cases hcall : call s.world with
  | ok b world =>
    rw [sys_of_ok hcall]
    exact hok b world hcall
  | error errno world =>
    rw [sys_of_error hcall]
    exact hfail errno world hcall

/-- A client that returns. -/
theorem processLine_of_ok {callback : Callback H α} {a : α}
    (h : callback s.self.fp s.self.line s.client = .ok () a) :
    processLine callback s = .ok () { s with client := a } := by
  rw [processLine, h]

/-- A client that throws. -/
theorem processLine_of_error {callback : Callback H α} {e : Halt} {a : α}
    (h : callback s.self.fp s.self.line s.client = .error e a) :
    processLine callback s = .error e { s with client := a } := by
  rw [processLine, h]

end

/-! ### Reads -/

section
variable {H ω α W : Type} {callback : Callback H α} {closeFile : Prog H ω α W Unit}

/-- The end of the file, or the error that ends it. -/
theorem readBytes_nil (error : Option Errno) :
    readBytes callback closeFile error [] = match error with
      | none => pure ()
      | some errno => closeFile >>= fun _ => self >>= fun w =>
          throw (.thrown (.watcherIOError (lit "reading " ++ w.path) errno)) := by
  cases error <;> rfl

/-- One more byte. -/
theorem readBytes_cons (error : Option Errno) (c : UInt8) (rest : Bytes) :
    readBytes callback closeFile error (c :: rest) = assign (takeByte c) >>= fun _ =>
      if c == nl then
        processLine callback >>= fun _ => assign clearLine >>= fun _ =>
          readBytes callback closeFile error rest
      else readBytes callback closeFile error rest := rfl

end

/-! ### The path -/

section
variable {H ω α W β : Type}

/-- The path of the watcher at work. -/
def pathOf (s : Call H ω α W) : Bytes := s.self.path

/-- A system call keeps the path, if the handling of its failure does. -/
theorem keeps_path_sys {call : EStateM Errno W β} {fail : Errno → Prog H ω α W β}
    (h : ∀ errno, Keeps pathOf (fail errno)) : Keeps pathOf (sys call fail) := by
  intro s
  unfold sys
  split
  · rfl
  · exact h _ _

/-- An assignment to another member keeps the path. -/
theorem keeps_path_assign {f : Watcher H ω → Watcher H ω} (h : ∀ w, (f w).path = w.path) :
    Keeps pathOf (assign f : Prog H ω α W Unit) := fun s => h s.self

/-- The client has no part in the path. -/
theorem keeps_path_processLine (callback : Callback H α) :
    Keeps pathOf (processLine callback : Prog H ω α W Unit) := by
  intro s
  unfold processLine
  split <;> rfl

/-- By induction on the bytes. -/
theorem keeps_path_readBytes {callback : Callback H α} {closeFile : Prog H ω α W Unit}
    (hclose : Keeps pathOf closeFile) (error : Option Errno) (bytes : Bytes) :
    Keeps pathOf (readBytes callback closeFile error bytes) := by
  induction bytes with
  | nil =>
    rw [readBytes_nil]
    cases error with
    | none => exact .of_pure _
    | some errno => exact .bind hclose fun _ => .bind (fun _ => rfl) fun _ => .of_throw _
  | cons c rest ih =>
    rw [readBytes_cons]
    refine .bind (keeps_path_assign fun _ => rfl) fun _ => .ite ?_ ih
    refine .bind (keeps_path_processLine _) fun _ => .bind ?_ fun _ => ih
    exact keeps_path_assign fun _ => rfl

/-- The reads keep the path, if `closeFile` does. -/
theorem keeps_path_readLines {os : Syscalls H W} {callback : Callback H α}
    {closeFile : Prog H ω α W Unit} (hclose : Keeps pathOf closeFile) :
    Keeps pathOf (readLines os callback closeFile) := by
  refine .bind (fun _ => rfl) fun w => ?_
  split
  · exact .of_throw _
  · exact .bind (fun _ => rfl) fun _ => keeps_path_readBytes hclose _ _

end

section
variable {H α W : Type} (os : Syscalls H W) (callback : Callback H α)

/-- `openFile` reads the path, and does not change it. -/
theorem keeps_path_openFile : Keeps pathOf (openFile os : Prog H Inotify α W Unit) := by
  refine .bind (fun _ => rfl) fun w => .bind (fun _ => rfl) fun _ => .ite ?_ (.of_pure _)
  refine .bind (keeps_path_sys fun _ => .ite (.of_throw _) (.of_pure _)) fun fp => ?_
  cases fp with
  | none => exact .of_pure _
  | some handle =>
    exact .bind (keeps_path_assign fun _ => rfl) fun _ =>
      .bind (keeps_path_sys fun _ => .of_throw _) fun _ => keeps_path_assign fun _ => rfl

/-- Nor does `closeFile`. -/
theorem keeps_path_closeFile : Keeps pathOf (closeFile os callback) := by
  have hassign (f : Watcher H Inotify → Watcher H Inotify) (h : ∀ w, (f w).path = w.path) :
      Keeps pathOf (assign f : Prog H Inotify α W Unit) := keeps_path_assign h
  have hflush : Keeps pathOf (flushLine callback : Prog H Inotify α W Unit) := by
    refine .bind (fun _ => rfl) fun w => .ite ?_ (.of_pure _)
    exact .bind (keeps_path_processLine _) fun _ => hassign _ fun _ => rfl
  have hremove : Keeps pathOf (removeWatch os : Prog H Inotify α W Unit) := by
    refine .bind (fun _ => rfl) fun w => .ite ?_ (.of_pure _)
    refine .bind (keeps_path_sys fun errno => ?_) fun _ => hassign _ fun _ => rfl
    refine .bind (hassign _ fun _ => rfl) fun _ => .ite ?_ (.of_pure _)
    exact .bind (fun _ => rfl) fun _ => .of_throw _
  refine .bind (fun _ => rfl) fun w => ?_
  split
  · refine .bind hflush fun _ => .bind hremove fun _ => .bind ?_ fun _ => hassign _ fun _ => rfl
    exact .of_modify fun _ => rfl
  · exact .of_pure _

/-- **Nor does `work`**, whatever its events are. -/
theorem keeps_path_work : Keeps pathOf (work os callback) := by
  have hclose := keeps_path_closeFile os callback
  refine .bind (fun _ => rfl) fun w => ?_
  refine .bind (keeps_path_sys fun errno => .ite (.of_throw _) (.of_pure _)) fun events => ?_
  refine .forM fun event => .bind ?_ fun _ => ?_
  · refine .bind (fun _ => rfl) fun _ => .ite ?_ (.of_pure _)
    exact .bind (keeps_path_readLines hclose) fun _ => .ite hclose (.of_pure _)
  · refine .bind (fun _ => rfl) fun _ => .ite ?_ (.of_pure _)
    refine .bind hclose fun _ => .bind (keeps_path_openFile os) fun _ => ?_
    exact .bind (fun _ => rfl) fun _ => .ite (keeps_path_readLines hclose) (.of_pure _)

/-- A new watcher watches the path it was made for. -/
theorem path_of_construct {path : Bytes} {world world' : W} {watcher : InotifyWatcher H}
    (h : construct os path world = .ok watcher world') : watcher.path = path := by
  have hstart : Keeps pathOf (start os) := by
    refine .bind (keeps_path_sys fun _ => .of_throw _) fun _ => ?_
    refine .bind (keeps_path_assign fun _ => rfl) fun _ => .bind (fun _ => rfl) fun w => ?_
    refine .bind (keeps_path_sys fun _ => .of_throw _) fun _ => ?_
    refine .bind (keeps_path_assign fun _ => rfl) fun _ => ?_
    refine .bind (keeps_path_openFile os) fun _ => ?_
    refine .bind (fun _ => rfl) fun w => ?_
    split
    · exact .bind (keeps_path_sys fun _ => .of_throw _) fun _ => keeps_path_assign fun _ => rfl
    · exact .of_pure _
  let own : Inotify := ⟨getBaseName path, getDirName path, -1, -1, -1⟩
  have hpath := hstart ⟨⟨path, none, [], own⟩, (), world⟩
  cases hrun : start os ⟨⟨path, none, [], own⟩, (), world⟩ with
  | ok u s =>
    rw [hrun] at hpath
    rw [construct, hrun] at h
    cases h
    exact hpath
  | error e s =>
    rw [construct, hrun] at h
    cases h

end

end Blockad.Proofs
