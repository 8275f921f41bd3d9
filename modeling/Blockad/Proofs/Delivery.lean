import Blockad.Model.Main
import Blockad.Proofs.Watcher

/-!
# `Blockad.Proofs.Delivery`: the lines of a watcher do not depend on its client

A watcher never looks at its client, and a client can affect it in one way only: an exception
stops it. So there are lines that every client gets, and unless it throws on one of them, the
watcher ends in the same way with every client (`Delivers`).

* `Factors`: this property of a program, closed under sequences.
* `factors_work`, `factors_checkWatchers`: it holds of a watcher's `work`, and of the pass of
  the main loop over all watchers.
* `check_delivers`: the pass of the daemon, from the lines that its watchers deliver.
-/

set_option autoImplicit false

namespace Blockad.Proofs

open Prog Watcher InotifyWatcher

/-- A client that looks at the line only. -/
def onLine {H α : Type} (f : Bytes → EStateM Halt α Unit) : Callback H α := fun _ => f

/-- What a watcher ends with on its own account. -/
def WatcherHalt : Halt → Prop
  | .thrown (.watcherIOError ..) | .thrown (.watcherSystemError ..) | .undefined => True
  | .thrown _ => False

variable {H ω W R β γ : Type}

/-! ### Programs with any client -/

section
variable {S : Type → Type} (put : (α : Type) → R → α → S α)

/-- A program for any client. -/
abbrev Watching (H : Type) (S : Type → Type) (β : Type) :=
  (α : Type) → Callback H α → EStateM Halt (S α) β

/-- A result, normal or not, in a state. -/
def resultIn {α : Type} (state : α) : Except Halt β → EStateM.Result Halt α β
  | .ok b => .ok b state
  | .error h => .error h state

/-- The run gives the lines to the client `f`, and ends as `outcome` says, unless the client
throws. -/
def Delivers {α σ : Type} (lines : List Bytes) (f : Bytes → EStateM Halt α Unit) (client : α)
    (run : EStateM.Result Halt σ β) (outcome : α → EStateM.Result Halt σ β) : Prop :=
  match lines.forM f client with
  | .ok () client => run = outcome client
  | .error h _ => ∃ s, run = .error h s

/-- The program ends with the same result `result` and in the same state `r'` with every
client that takes the lines. Both do not depend on the client. -/
def Factors (p : Watching H S β) : Prop :=
  ∀ r, ∃ lines result r', (∀ h, result = .error h → WatcherHalt h) ∧
    ∀ {α : Type} (f : Bytes → EStateM Halt α Unit) (client : α),
      Delivers lines f client (p α (onLine f) (put α r client)) fun client =>
        resultIn (put α r' client) result

namespace Factors

variable {put}

/-- A result delivers nothing. -/
theorem of_pure (b : β) : Factors put (fun _ _ => pure b : Watching H S β) :=
  fun r => ⟨[], .ok b, r, nofun, fun _ _ => rfl⟩

/-- An exception of the watcher delivers nothing. -/
theorem of_throw {h : Halt} (hh : WatcherHalt h) :
    Factors put (fun _ _ => throw h : Watching H S β) :=
  fun r => ⟨[], .error h, r, fun _ heq => Except.error.inj heq ▸ hh, fun _ _ => rfl⟩

/-- What the first part delivers comes before what the second one does. -/
theorem bind {p : Watching H S β} {q : β → Watching H S γ} (hp : Factors put p)
    (hq : ∀ b, Factors put (q b)) :
    Factors put fun α callback => p α callback >>= fun b => q b α callback := by
  intro r
  obtain ⟨lines, result, r₁, hhalt, hdeliver⟩ := hp r
  cases result with
  | error h =>
    -- The second part is never reached.
    refine ⟨lines, .error h, r₁, fun h' heq => hhalt h' (by cases heq; rfl), fun f client => ?_⟩
    have hd := hdeliver f client
    unfold Delivers at hd ⊢
    split at hd
    · exact bind_of_error hd
    · obtain ⟨s, hs⟩ := hd
      exact ⟨s, bind_of_error hs⟩
  | ok b =>
    -- The second part starts from a result and a state that no client has a say in.
    obtain ⟨lines', result, r', hhalt', hdeliver'⟩ := hq b r₁
    refine ⟨lines ++ lines', result, r', hhalt', fun f client => ?_⟩
    have hd := hdeliver f client
    unfold Delivers at hd ⊢
    dsimp only at hd ⊢
    rw [List.forM_eq_forM] at hd
    rw [List.forM_eq_forM, List.forM_append]
    cases hlines : forM lines f client with
    | error h client' =>
      -- The client has thrown on a line of the first part.
      rw [hlines] at hd
      obtain ⟨s, hs⟩ := hd
      rw [bind_of_error hlines]
      exact ⟨s, bind_of_error hs⟩
    | ok u client' =>
      rw [hlines] at hd
      rw [bind_of_ok hlines, bind_of_ok hd]
      exact hdeliver' f client'

/-- A branch that does not depend on the client. -/
theorem ite {c : Prop} [Decidable c] {p q : Watching H S β} (hp : Factors put p)
    (hq : Factors put q) :
    Factors put fun α callback => if c then p α callback else q α callback := by
  split
  · exact hp
  · exact hq

/-- A loop delivers what its turns do, in order. -/
theorem forM {as : List γ} {p : γ → Watching H S PUnit} (h : ∀ a, Factors put (p a)) :
    Factors put fun α callback => as.forM fun a => p a α callback := by
  induction as with
  | nil => exact of_pure _
  | cons a as ih => exact bind (h a) fun _ => ih

end Factors

end

/-! ### The programs of a watcher -/

section
variable (os : Syscalls H W)

/-- The state of a watcher at work, with its client. -/
abbrev callOf (α : Type) (r : Watcher H ω × W) (client : α) : Call H ω α W :=
  ⟨r.1, client, r.2⟩

/-- A program of a watcher, for any client. -/
abbrev WatcherProg (H ω W β : Type) := Watching H (fun α => Call H ω α W) β

namespace Factors

/-- The members are not the client. -/
theorem of_self : Factors callOf (fun _ _ => self : WatcherProg H ω W (Watcher H ω)) :=
  fun r => ⟨[], .ok r.1, r, nofun, fun _ _ => rfl⟩

/-- Nor is the world. -/
theorem of_observe (f : W → β) : Factors callOf (fun _ _ => observe f : WatcherProg H ω W β) :=
  fun r => ⟨[], .ok (f r.2), r, nofun, fun _ _ => rfl⟩

/-- An assignment delivers nothing. -/
theorem of_assign (f : Watcher H ω → Watcher H ω) :
    Factors callOf (fun _ _ => assign f : WatcherProg H ω W Unit) :=
  fun r => ⟨[], .ok (), (f r.1, r.2), nofun, fun _ _ => rfl⟩

/-- Nor does a system call that cannot fail. -/
theorem of_sysVoid (f : W → W) : Factors callOf (fun _ _ => sysVoid f : WatcherProg H ω W Unit) :=
  fun r => ⟨[], .ok (), (r.1, f r.2), nofun, fun _ _ => rfl⟩

/-- Nor does one that can. -/
theorem sys {call : EStateM Errno W β} {fail : Errno → WatcherProg H ω W β}
    (h : ∀ errno, Factors callOf (fail errno)) :
    Factors callOf fun α callback => Watcher.sys call fun errno => fail errno α callback := by
  intro r
  cases hcall : call r.2 with
  | ok b world => exact ⟨[], .ok b, (r.1, world), nofun, fun f client => sys_of_ok hcall⟩
  | error errno world =>
    obtain ⟨lines, result, r', hhalt, hdeliver⟩ := h errno (r.1, world)
    refine ⟨lines, result, r', hhalt, fun f client => ?_⟩
    dsimp only
    rw [sys_of_error (s := callOf _ r client) hcall]
    exact hdeliver f client

/-- The one operation that calls the client. -/
theorem processLine :
    Factors callOf (fun _ callback => Watcher.processLine callback : WatcherProg H ω W Unit) := by
  refine fun r => ⟨[r.1.line], .ok (), r, nofun, fun f client => ?_⟩
  unfold Delivers Watcher.processLine
  have hone : [r.1.line].forM f = f r.1.line := by simp
  rw [hone]
  dsimp only [onLine]
  cases f r.1.line client with
  | ok u client' => rfl
  | error h client' => exact ⟨_, rfl⟩

end Factors

/-- By induction on the bytes. -/
theorem factors_readBytes {closeFile : WatcherProg H ω W Unit} (hclose : Factors callOf closeFile)
    (error : Option Errno) (bytes : Bytes) :
    Factors callOf fun α callback => readBytes callback (closeFile α callback) error bytes := by
  induction bytes with
  | nil =>
    simp only [readBytes_nil]
    cases error with
    | none => exact .of_pure _
    | some errno => exact .bind hclose fun _ => .bind .of_self fun _ => .of_throw trivial
  | cons c rest ih =>
    simp only [readBytes_cons]
    refine .bind (.of_assign _) fun _ => .ite ?_ ih
    exact .bind .processLine fun _ => .bind (.of_assign _) fun _ => ih

/-- The lines that are read are delivered in order. -/
theorem factors_readLines {closeFile : WatcherProg H ω W Unit} (hclose : Factors callOf closeFile) :
    Factors callOf fun α callback => readLines os callback (closeFile α callback) := by
  refine .bind .of_self fun w => ?_
  cases w.fp with
  | none => exact .of_throw trivial
  | some f => exact .bind (.of_observe _) fun _ => factors_readBytes hclose _ _

/-- Opening delivers nothing. -/
theorem factors_openFile :
    Factors callOf (fun _ _ => openFile os : WatcherProg H Inotify W Unit) := by
  refine .bind .of_self fun w => .bind .of_self fun _ => .ite ?_ (.of_pure _)
  refine .bind (.sys fun _ => .ite (.of_throw trivial) (.of_pure _)) fun fp => ?_
  cases fp with
  | none => exact .of_pure _
  | some handle =>
    refine .bind (.of_assign _) fun _ => .bind ?_ fun _ => .of_assign _
    exact .sys fun _ => .of_throw trivial

/-- The line that was begun is delivered. -/
theorem factors_closeFile :
    Factors callOf (fun _ callback => closeFile os callback : WatcherProg H Inotify W Unit) := by
  have hflush :
      Factors callOf (fun _ callback => flushLine callback : WatcherProg H Inotify W Unit) :=
    .bind .of_self fun _ => .ite (.bind .processLine fun _ => .of_assign _) (.of_pure _)
  have hremove : Factors callOf (fun _ _ => removeWatch os : WatcherProg H Inotify W Unit) := by
    refine .bind .of_self fun w => .ite ?_ (.of_pure _)
    refine .bind (.sys fun errno => ?_) fun _ => .of_assign _
    refine .bind (.of_assign _) fun _ => .ite ?_ (.of_pure _)
    exact .bind .of_self fun _ => .of_throw trivial
  refine .bind .of_self fun w => ?_
  cases w.fp with
  | none => exact .of_pure _
  | some f =>
    exact .bind hflush fun _ => .bind hremove fun _ => .bind (.of_sysVoid _) fun _ => .of_assign _

/-- **A watcher delivers the same lines to every client.** -/
theorem factors_work :
    Factors callOf (fun _ callback => work os callback : WatcherProg H Inotify W Unit) := by
  have hclose := factors_closeFile os
  have hfile (event : InotifyEvent) :
      Factors callOf
        (fun _ callback => fileEvent os callback event : WatcherProg H Inotify W Unit) :=
    .bind .of_self fun _ => .ite
      (.bind (factors_readLines os hclose) fun _ => .ite hclose (.of_pure _)) (.of_pure _)
  have hdir (event : InotifyEvent) :
      Factors callOf
        (fun _ callback => dirEvent os callback event : WatcherProg H Inotify W Unit) :=
    .bind .of_self fun _ => .ite
      (.bind hclose fun _ => .bind (factors_openFile os) fun _ => .bind .of_self fun _ =>
        .ite (factors_readLines os hclose) (.of_pure _))
      (.of_pure _)
  refine .bind .of_self fun w => ?_
  refine .bind (.sys fun _ => .ite (.of_throw trivial) (.of_pure _)) fun events => ?_
  exact .forM fun event => .bind (hfile event) fun _ => hdir event

/-! ### The pass of the main loop -/

/-- The state of the pass, with its client. -/
abbrev passOf (α : Type) (world : W) (client : α) : α × W := (client, world)

/-- **One turn** of the loop over the watchers. -/
theorem factors_checkWatcher (ready : Bool) (watcher : InotifyWatcher H) :
    Factors passOf fun _ callback => checkWatcher os callback ready watcher := by
  intro world
  unfold checkWatcher
  dsimp only
  by_cases hready : (decide (0 ≤ pollfd watcher) && ready) = true
  · obtain ⟨lines, result, ⟨watcher', world'⟩, hhalt, hdeliver⟩ := factors_work os (watcher, world)
    refine ⟨lines, result.map fun _ => watcher', world', fun h heq => ?_, fun f client => ?_⟩
    · cases result with
      | ok u => cases heq
      | error h' => cases heq; exact hhalt h rfl
    · have hd := hdeliver f client
      rw [if_pos hready]
      unfold Delivers at hd ⊢
      dsimp only at hd ⊢
      split at hd
      · rw [hd]
        cases result <;> rfl
      · obtain ⟨s, hs⟩ := hd
        rw [hs]
        exact ⟨_, rfl⟩
  · exact ⟨[], .ok watcher, world, nofun, fun f client => by rw [if_neg hready]; rfl⟩

/-- **The pass delivers the same lines to every client.** -/
theorem factors_checkWatchers (ready : Nat → Bool) (i : Nat) (watchers : List (InotifyWatcher H)) :
    Factors passOf fun _ callback => checkWatchers os callback ready i watchers := by
  induction watchers generalizing i with
  | nil => exact .of_pure _
  | cons watcher watchers ih =>
    exact .bind (factors_checkWatcher os (ready i) watcher) fun _ => .bind (ih (i + 1)) fun _ =>
      .of_pure _

/-- The client that collects the lines. -/
def collect : Bytes → EStateM Halt (List Bytes) Unit := fun line lines => .ok () (lines ++ [line])

/-- A client that collects its lines has all of them. -/
theorem forM_collect (lines before : List Bytes) :
    lines.forM collect before = .ok () (before ++ lines) := by
  induction lines generalizing before with
  | nil => rw [List.append_nil]; rfl
  | cons line lines ih =>
    rw [List.append_cons]
    exact ih (before ++ [line])

variable [Libc]

/-- The pass over the watchers of the daemon, with the client that collects the lines. -/
def collected (ready : Nat → Bool) (d : Daemon H W) :
    EStateM.Result Halt (List Bytes × W) (List (InotifyWatcher H)) :=
  checkWatchers os (onLine collect) ready 0 d.watchers ([], d.world)

/-- The lines that the watchers of the daemon deliver in one pass. -/
def delivered (ready : Nat → Bool) (d : Daemon H W) : List Bytes :=
  (stateOf (collected os ready d)).1

/-- The daemon after the pass, when its store is `store` then. -/
def afterPass (ready : Nat → Bool) (d : Daemon H W) (store : Store) :
    EStateM.Result Halt (Daemon H W) Unit :=
  match collected os ready d with
  | .ok watchers (_, world) => .ok () { d with watchers, store, world }
  | .error h (_, world) => .error h { d with store, world }

/-- The pass with the client that collects the lines says what happens with any client. -/
theorem delivers_delivered (ready : Nat → Bool) (d : Daemon H W) :
    ∃ result world, (∀ h, result = .error h → WatcherHalt h) ∧
      collected os ready d = resultIn (delivered os ready d, world) result ∧
      ∀ {α : Type} (f : Bytes → EStateM Halt α Unit) (client : α),
        Delivers (delivered os ready d) f client
          (checkWatchers os (onLine f) ready 0 d.watchers (client, d.world)) fun client =>
            resultIn (client, world) result := by
  obtain ⟨lines, result, world, hhalt, hdeliver⟩ :=
    factors_checkWatchers os ready 0 d.watchers d.world
  -- The client that collects never throws, so it sees all the lines.
  have hcollected : collected os ready d = resultIn (lines, world) result := by
    have hd := hdeliver collect []
    unfold Delivers at hd
    rw [forM_collect, List.nil_append] at hd
    exact hd
  have hlines : delivered os ready d = lines := by
    rw [delivered, hcollected]
    cases result <;> rfl
  exact ⟨result, world, hhalt, hlines ▸ hcollected, hlines ▸ hdeliver⟩

/-- The watchers end a pass with exceptions of their own only. -/
theorem watcherHalt_of_afterPass {ready : Nat → Bool} {d d' : Daemon H W} {store : Store} {h : Halt}
    (hafter : afterPass os ready d store = .error h d') : WatcherHalt h := by
  obtain ⟨result, world, hhalt, hcollected, -⟩ := delivers_delivered os ready d
  rw [afterPass, hcollected] at hafter
  cases result with
  | ok watchers => cases hafter
  | error h' =>
    cases hafter
    exact hhalt h rfl

/-- **The pass of the daemon** processes the lines that its watchers deliver. -/
theorem check_delivers (ready : Nat → Bool) (d : Daemon H W) :
    Delivers (delivered os ready d) (BlockingWatcher.processLine d.config) d.store
      (d.check os ready) (afterPass os ready d) := by
  obtain ⟨result, world, -, hcollected, hdeliver⟩ := delivers_delivered os ready d
  have hd := hdeliver (BlockingWatcher.processLine d.config) d.store
  unfold Delivers at hd ⊢
  split at hd
  · rename_i store _
    have hrun : checkWatchers os (fun _ => BlockingWatcher.processLine d.config) ready 0 d.watchers
        (d.store, d.world) = resultIn (store, world) result := hd
    rw [Daemon.check, afterPass, hrun, hcollected]
    cases result <;> rfl
  · rename_i h _ _
    obtain ⟨s, hs⟩ := hd
    have hrun : checkWatchers os (fun _ => BlockingWatcher.processLine d.config) ready 0 d.watchers
        (d.store, d.world) = .error h s := hs
    rw [Daemon.check, hrun]
    exact ⟨_, rfl⟩

end

end Blockad.Proofs
