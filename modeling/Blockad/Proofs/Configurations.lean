import Blockad.Proofs.Evidence

/-!
# `Blockad.Proofs.Configurations`: the configurations of a run

The daemon starts with a configuration, and each SIGHUP may give it another one. The recorded lines
keep the configuration under which they were read.

* `Configs`: a property of the configuration of the daemon, and of those of its lines.
* `configs_of_run`: it is enough to look at the start and at the reloads.
-/

set_option autoImplicit false

namespace Blockad.Proofs

open Bytes Prog Runs

variable [Libc] {H W : Type} {os : Syscalls H W} {conffile : Bytes} {capacity : Nat}

section
variable {r r' : Recorder H W} {p : EStateM Halt (Daemon H W) Unit}

/-- What the daemon does alone is not recorded. -/
theorem onDaemon_ok (h : Recorder.onDaemon p r = .ok () r') :
    ∃ d, p r.daemon = .ok () d ∧ r' = { r with daemon := d } := by
  unfold Recorder.onDaemon at h
  cases hrun : p r.daemon with
  | ok u d =>
    rw [hrun] at h
    cases h
    exact ⟨d, rfl, rfl⟩
  | error e d =>
    rw [hrun] at h
    cases h

/-- Nor is an exception of it. -/
theorem onDaemon_error {halt : Halt} (h : Recorder.onDaemon p r = .error halt r') :
    ∃ d, p r.daemon = .error halt d ∧ r' = { r with daemon := d } := by
  unfold Recorder.onDaemon at h
  cases hrun : p r.daemon with
  | ok u d =>
    rw [hrun] at h
    cases h
  | error e d =>
    rw [hrun] at h
    cases h
    exact ⟨d, rfl, rfl⟩

end

/-- Creating the watchers leaves the configuration alone. -/
theorem config_create (os : Syscalls H W) (d : Daemon H W) :
    (stateOf (Daemon.create os d)).config = d.config := by
  unfold Daemon.create
  split <;> rfl

/-- So does a reload that throws. -/
theorem config_reload_error {file : FileContent} {d d' : Daemon H W} {halt : Halt}
    (h : Daemon.reload os conffile file d = .error halt d') : d'.config = d.config := by
  unfold Daemon.reload at h
  split at h
  · split at h
    · cases h
    · cases h
      rfl
  · split at h
    · cases h
    · cases h
      rfl

/-- The configuration of the daemon, and those of its lines. -/
structure Configs (good : ConfFile → Prop) (r : Recorder H W) : Prop where
  config : good r.daemon.config
  lines : ∀ line ∈ r.lines, good line.1

section
variable {good : ConfFile → Prop}

/-- A pass over the watchers records each line with the configuration of the daemon. -/
theorem configs_check (os : Syscalls H W) {r : Recorder H W} (ready : Nat → Bool)
    (h : Configs good r) : Configs good (stateOf (Recorder.check os ready r)) := by
  have hconfig : (stateOf (Recorder.check os ready r)).daemon.config = r.daemon.config := by
    unfold Recorder.check
    split <;> rfl
  have hline (line : Bytes) (a : Recorded) (ha : ∀ entry ∈ a.2, good entry.1) :
      Ends (fun _ a' => ∀ entry ∈ a'.2, good entry.1) (fun _ a' => ∀ entry ∈ a'.2, good entry.1)
        (recordLine r.daemon.config line a) := by
    have hall : ∀ entry ∈ a.2 ++ [(r.daemon.config, line)], good entry.1 := by
      intro entry hentry
      rcases List.mem_append.mp hentry with hentry | hentry
      · exact ha entry hentry
      · rw [List.mem_singleton.mp hentry]
        exact h.config
    unfold recordLine
    dsimp only
    cases BlockingWatcher.processLine r.daemon.config line a.1 with
    | ok u store => exact hall
    | error e store => exact hall
  have hlines := ends_check os ready (fun a => ∀ entry ∈ a.2, good entry.1)
    (fun a => ∀ entry ∈ a.2, good entry.1) hline (fun _ ha => ha) h.lines
  refine ⟨hconfig ▸ h.config, ?_⟩
  cases hrun : Recorder.check os ready r with
  | ok u r' => exact (hlines.ok hrun).2
  | error e r' =>
    rw [hrun] at hlines
    exact hlines

/-- **One step.** -/
theorem configs_step {r r' : MainLoop (Recorder H W)} {a : LoopAction} (hr : Configs good r.data)
    (h : MainLoop.Step capacity (Recorder.body os conffile) r a r')
    (hreload : a = .reloaded → good r'.data.daemon.config) : Configs good r'.data := by
  have hcreate := config_create os r.data.daemon
  cases h with
  | @changed data hchange =>
    have hsame : data = { r.data with daemon.world := data.daemon.world } := hchange
    show Configs good data
    rw [hsame]
    exact ⟨hr.config, hr.lines⟩
  | created hpoint hrun =>
    obtain ⟨d, hd, rfl⟩ := onDaemon_ok hrun
    rw [hd] at hcreate
    exact ⟨hcreate ▸ hr.config, hr.lines⟩
  | createFailed hpoint hrun =>
    obtain ⟨d, hd, rfl⟩ := onDaemon_error hrun
    rw [hd] at hcreate
    exact ⟨hcreate ▸ hr.config, hr.lines⟩
  | @checked pipe watchers data hpoint hrun =>
    have hcheck := configs_check os watchers hr
    rw [show Recorder.check os watchers r.data = .ok () data from hrun] at hcheck
    exact hcheck
  | @checkFailed pipe watchers data halt hpoint hrun =>
    have hcheck := configs_check os watchers hr
    rw [show Recorder.check os watchers r.data = .error halt data from hrun] at hcheck
    exact hcheck
  | reloaded file hpoint hrun =>
    obtain ⟨d, hd, rfl⟩ := onDaemon_ok hrun
    exact ⟨hreload rfl, hr.lines⟩
  | reloadFailed file hpoint hrun =>
    obtain ⟨d, hd, rfl⟩ := onDaemon_error hrun
    exact ⟨config_reload_error hd ▸ hr.config, hr.lines⟩
  | _ => exact hr

/-- **The reloads are enough** to say what all configurations of a run are like. -/
theorem configs_of_run {r₀ r : MainLoop (Recorder H W)} {actions : List LoopAction}
    (hstart : Configs good r₀.data)
    (h : Run (· = r₀) (fun r a r' => MainLoop.Step capacity (Recorder.body os conffile) r a r' ∧
      (a = .reloaded → good r'.data.daemon.config)) actions r) : Configs good r.data := by
  induction h with
  | start hfirst => exact hfirst ▸ hstart
  | next _ hstep ih => exact configs_step ih hstep.1 hstep.2

end

end Blockad.Proofs
