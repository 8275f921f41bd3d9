import Blockad.Model.MainLoop
import Blockad.Proofs.Reload

/-!
# `Blockad.Proofs.Signals`: no reload request is lost

The main loop is an instance of the protocol of `SelfPipe`: SIGHUP is the request, and reading the
configuration is the service. Draining the pipe and reading the configuration are steps of their
own, and the loop owes a service between them.

* `run_of_mainLoop`: the runs of the main loop are runs of the protocol.
* `reload_request_not_lost`: after every SIGHUP, the configuration is going to be read, or it was.
* `reachable_of_mainLoop`: what the loop does to the daemon are the steps of `DaemonStep`.
-/

set_option autoImplicit false

namespace Blockad.Proofs

open Runs

/-! ### The protocol -/

/-- What an action is to the protocol. -/
def actOf : LoopAction → SelfPipe.Act
  | .generated => .request
  | .delivered => .deliver
  | .drained => .drain
  | .readBegan => .serve
  | _ => .other

/-- The loop owes a service between its drain and its read. -/
def owing : Point → Bool
  | .drained => true
  | _ => false

section
variable {σ : Type} {capacity : Nat} {body : Body σ}

/-- The state of the protocol. -/
def signalState (s : MainLoop σ) : SelfPipe.State := ⟨s.pending, s.pipe, owing s.point⟩

/-- A step between two points that owe nothing. -/
theorem step_other {s s' : MainLoop σ} (hpending : s'.pending = s.pending)
    (hpipe : s'.pipe = s.pipe) (howing : owing s.point = false) (howing' : owing s'.point = false) :
    SelfPipe.Step capacity (signalState s) .other (signalState s') := by
  have h : signalState s' = signalState s := by
    unfold signalState
    rw [hpending, hpipe, howing, howing']
  rw [h]
  exact .other _

/-- A step of the loops is one of the self-pipe. -/
theorem step_of_mainLoop {s s' : MainLoop σ} {a : LoopAction}
    (h : MainLoop.Step capacity body s a s') :
    SelfPipe.Step capacity (signalState s) (actOf a) (signalState s') := by
  cases h with
  | generated => exact .request _
  | delivered hpending _ => exact .deliver (s := signalState s) hpending
  | drained hpoint => exact .drain _ _
  | readBegan hpoint => exact .serve _
  | changed => exact .other _
  | _ => exact step_other rfl rfl (by rw [‹s.point = _›]; rfl) rfl

/-- So is a whole run. -/
theorem run_of_mainLoop {actions : List LoopAction} {s : MainLoop σ}
    (h : Run MainLoop.Installed (MainLoop.Step capacity body) actions s) :
    Run (fun _ => True) (SelfPipe.Step capacity) (actions.map actOf) (signalState s) :=
  h.map (fun _ _ => trivial) fun _ _ _ => step_of_mainLoop

/-- The requests are the signals. -/
theorem actOf_eq_request {a : LoopAction} : actOf a = .request ↔ a = .generated := by
  cases a <;> simp [actOf]

/-- They are served when the configuration is read. -/
theorem actOf_eq_serve {a : LoopAction} : actOf a = .serve ↔ a = .readBegan := by
  cases a <;> simp [actOf]

/-- The pipe was drained, and the configuration is not read yet. -/
theorem owing_eq_true {point : Point} : owing point = true ↔ point = .drained := by
  cases point <;> simp [owing]

/-- **No reload request is lost.** -/
theorem reload_request_not_lost (hcapacity : 0 < capacity) {actions : List LoopAction}
    {s : MainLoop σ} (h : Run MainLoop.Installed (MainLoop.Step capacity body) actions s) :
    s.pending = true ∨ 0 < s.pipe ∨ s.point = .drained ∨
      Since (· = .generated) (· = .readBegan) actions ∨ .generated ∉ actions := by
  rcases SelfPipe.not_lost_of_run hcapacity (run_of_mainLoop h) with
    hpending | hpipe | howing | hserved | hnone
  · exact .inl hpending
  · exact .inr (.inl hpipe)
  · exact .inr (.inr (.inl (owing_eq_true.mp howing)))
  · have hsince := hserved.of_map
    simp only [actOf_eq_request, actOf_eq_serve] at hsince
    exact .inr (.inr (.inr (.inl hsince)))
  · refine .inr (.inr (.inr (.inr fun hmem => hnone ?_)))
    exact List.mem_map.mpr ⟨_, hmem, rfl⟩

end

/-! ### The daemon -/

section
variable [Libc] {H W : Type} {os : Syscalls H W} {conffile : Bytes} {capacity : Nat}

/-- The daemon has read its configuration, and has no watchers yet. -/
def Prepared (conffile : Bytes) (d : Daemon H W) : Prop :=
  ∃ file future, ConfFile.construct conffile file = .ok d.config ∧ d.watchers = [] ∧
    d.store = { addressData := ∅, blockCalls := [], future }

/-- The daemon that has its watchers has started. -/
theorem daemonStarted_of_create {d d' : Daemon H W} (hd : Prepared conffile d)
    (h : d.create os = .ok () d') : DaemonStarted os conffile d' := by
  obtain ⟨file, future, hparse, hwatchers, hstore⟩ := hd
  unfold Daemon.create at h
  rw [hwatchers] at h
  cases hupdate : updateWatchers os (inotifyClass os) none d.config.files [] d.world with
  | ok watchers world =>
    rw [hupdate] at h
    cases h
    refine ⟨file, future, d.world, world, ?_⟩
    unfold Daemon.start
    rw [hparse]
    dsimp only
    rw [hupdate, hstore]
  | error halt world =>
    rw [hupdate] at h
    cases h

/-- What is known of the daemon at each point of the program. -/
def DaemonAt (os : Syscalls H W) (conffile : Bytes) (d : Daemon H W) : Point → Prop
  | .installed => Prepared conffile d
  | .exited => True
  | _ => Reachable (DaemonStarted os conffile) (DaemonStep os conffile) d

/-- A change of the world leaves the daemon where it is. -/
theorem daemonAt_change {d d' : Daemon H W} {point : Point} (h : DaemonAt os conffile d point)
    (hchange : d' = { d with world := d'.world }) : DaemonAt os conffile d' point := by
  rw [hchange]
  have houtside (h : Reachable (DaemonStarted os conffile) (DaemonStep os conffile) d) :
      Reachable (DaemonStarted os conffile) (DaemonStep os conffile)
        { d with world := d'.world } := .next _ h (.outside d'.world)
  cases point with
  | installed => exact h
  | exited => trivial
  | _ => exact houtside h

/-- **One step.** -/
theorem daemonAt_step {s s' : MainLoop (Daemon H W)} {a : LoopAction}
    (hs : DaemonAt os conffile s.data s.point)
    (h : MainLoop.Step capacity (Daemon.body os conffile) s a s') :
    DaemonAt os conffile s'.data s'.point := by
  cases h with
  | generated => exact hs
  | delivered => exact hs
  | changed h => exact daemonAt_change hs h
  | created hpoint hrun =>
    rw [hpoint] at hs
    exact .start (daemonStarted_of_create hs hrun)
  | checked hpoint hrun =>
    rw [hpoint] at hs
    exact .next _ hs (.check hrun)
  | reloaded file hpoint hrun =>
    rw [hpoint] at hs
    exact .next _ hs (.hangup hrun)
  | createFailed => trivial
  | unblockFailed => trivial
  | blockFailed => trivial
  | selectError => trivial
  | checkFailed => trivial
  | reloadFailed => trivial
  | _ =>
    -- The program goes on to the next point of the loops.
    rw [‹s.point = _›] at hs
    exact hs

/-- **The main loop runs the daemon.** -/
theorem reachable_of_mainLoop {actions : List LoopAction} {s : MainLoop (Daemon H W)}
    (h : Run (fun s => MainLoop.Installed s ∧ Prepared conffile s.data)
      (MainLoop.Step capacity (Daemon.body os conffile)) actions s)
    (hinstalled : s.point ≠ .installed) (hexited : s.point ≠ .exited) :
    Reachable (DaemonStarted os conffile) (DaemonStep os conffile) s.data := by
  have hs : DaemonAt os conffile s.data s.point :=
    h.invariant
      (fun s hs => by
        show DaemonAt os conffile s.data s.point
        rw [hs.1.point]
        exact hs.2)
      fun _ _ _ _ => daemonAt_step
  unfold DaemonAt at hs
  split at hs
  · exact absurd ‹s.point = _› hinstalled
  · exact absurd ‹s.point = _› hexited
  · exact hs

end

/-! ### One request -/

/-- The idle daemon, when its configuration file is about to be read. -/
def hungUp : letI := Libc.noMatch; MainLoop (Daemon Unit Unit) := ⟨.reading, false, 0, idleDaemon⟩

/-- SIGHUP comes before the loops. -/
def hangupActions : List LoopAction :=
  [.generated, .created, .unblocked, .delivered, .selected, .blocked, .checked, .drained,
    .readBegan]

/-- The body of the idle daemon. -/
def idleBody : letI := Libc.noMatch; Body (Daemon Unit Unit) :=
  letI := Libc.noMatch
  Daemon.body noFiles (Bytes.lit "blockad.conf")

/-- The run of the example. -/
theorem run_hungUp :
    letI := Libc.noMatch
    Run MainLoop.Installed (MainLoop.Step 65536 idleBody) hangupActions hungUp := by
  let _ := Libc.noMatch
  have hinstalled : Run MainLoop.Installed (MainLoop.Step 65536 idleBody) []
      ⟨.installed, false, 0, idleDaemon⟩ := .start ⟨rfl, rfl⟩
  have hwaiting := ((hinstalled.next (.generated _)).next (.created rfl rfl)).next (.unblocked rfl)
  have hblocked := ((hwaiting.next (.delivered rfl rfl)).next
    (.selected (fun _ => false) rfl (iff_of_true rfl Nat.one_pos))).next (.blocked rfl)
  exact ((hblocked.next (.checked rfl rfl)).next (.drained rfl)).next (.readBegan rfl)

/-- A signal before the loops. -/
theorem reload_request_not_lost_hungUp :
    hungUp.pending = true ∨ 0 < hungUp.pipe ∨ hungUp.point = .drained ∨
      Since (· = .generated) (· = .readBegan) hangupActions ∨ .generated ∉ hangupActions := by
  let _ := Libc.noMatch
  exact reload_request_not_lost (by decide : 0 < 65536) run_hungUp

end Blockad.Proofs
