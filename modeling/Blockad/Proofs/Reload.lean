import Blockad.Lib.Runs
import Blockad.Proofs.ConfFile
import Blockad.Proofs.UpdateWatchers

/-!
# `Blockad.Proofs.Reload`: what SIGHUP does to the daemon

A reload first reads the configuration, with a handler that keeps the old one, and then
updates the watchers, without a handler. An exception of a new watcher leaves the main loop,
and a part of the old watchers is already gone.

* `corresponds_of_reachable`: in a run whose reloads all meet `ReloadMeets`, the watchers are
  those of the configuration between any two events.
* `reload_atomic_iff`: from such a state, the next reload takes effect completely or not at
  all exactly when it meets the condition as well.
-/

set_option autoImplicit false

namespace Blockad.Proofs

open ConfFile Matching Prog Runs

/-! ### What keeps the watchers -/

section
variable {H W ω : Type} {path : ω → Bytes} (os : Syscalls H W) (cls : WatcherClass W ω)

/-- Without an old configuration, the new vector gets one watcher for each file. -/
theorem map_path_of_updateLoop_none
    (hnew : ∀ {file world watcher world'}, cls.new file world = .ok watcher world' →
      path watcher = file)
    {files : List Bytes} {i : Nat} {oldWatchers left : List (Option ω)}
    {newWatchers result : List ω} {world world' : W} (hlen : newWatchers.length = i)
    (h : updateLoop os cls none i oldWatchers newWatchers files world
      = .ok (left, result) world') : result.map path = newWatchers.map path ++ files := by
  induction files generalizing i newWatchers world with
  | nil =>
    cases h
    rw [List.append_nil]
  | cons file files ih =>
    rw [updateLoop_cons_new os cls rfl hlen] at h
    obtain ⟨watcher, world₁, hcreate, h⟩ := bind_eq_ok_iff.mp h
    rw [ih (by simp [hlen]) h, List.map_append, List.map_singleton,
      path_of_createWatcher os cls hnew hcreate, List.append_assoc, List.singleton_append]

variable {α : Type}

/-- The watchers keep their paths while they work. -/
theorem map_path_of_checkWatchers {callback : Callback H α} {ready : Nat → Bool} {i : Nat}
    {watchers watchers' : List (InotifyWatcher H)} {s s' : α × W}
    (h : checkWatchers os callback ready i watchers s = .ok watchers' s') :
    watchers'.map Watcher.path = watchers.map Watcher.path := by
  induction watchers generalizing i watchers' s with
  | nil =>
    cases h
    rfl
  | cons watcher watchers ih =>
    obtain ⟨first, s₁, hfirst, h⟩ := bind_eq_ok_iff.mp h
    obtain ⟨rest, s₂, hrest, h⟩ := bind_eq_ok_iff.mp h
    cases h
    rw [List.map_cons, List.map_cons, ih hrest]
    congr 1
    obtain ⟨client, world⟩ := s
    unfold checkWatcher at hfirst
    dsimp only at hfirst
    split at hfirst
    · -- Only a watcher that is ready works at all.
      have hkeeps := keeps_path_work os callback ⟨watcher, client, world⟩
      split at hfirst
      · rename_i hwork
        rw [hwork] at hkeeps
        cases hfirst
        exact hkeeps
      · cases hfirst
    · cases hfirst
      rfl

end

/-! ### Runs of the daemon -/

variable [Libc] {H W : Type} (os : Syscalls H W) (conffile : Bytes)

/-- What happens to the daemon: a pass over the ready watchers, a SIGHUP with what the
configuration file holds then, or anything outside of it. -/
inductive DaemonEvent (W : Type) where
  | check (ready : Nat → Bool)
  | hangup (file : FileContent)
  | outside (world : W)

/-- The daemon has started. -/
def DaemonStarted (d : Daemon H W) : Prop :=
  ∃ file future world world', Daemon.start os conffile file future world = .ok d world'

/-- The steps after which the daemon still runs. -/
inductive DaemonStep : Daemon H W → DaemonEvent W → Daemon H W → Prop where
  | check {d d' : Daemon H W} {ready : Nat → Bool} (h : d.check os ready = .ok () d') :
      DaemonStep d (.check ready) d'
  | hangup {d d' : Daemon H W} {file : FileContent} (h : d.reload os conffile file = .ok () d') :
      DaemonStep d (.hangup file) d'
  | outside {d : Daemon H W} (world : W) : DaemonStep d (.outside world) { d with world }

/-- The configuration is refused, or its watchers can all be had: the files pair up with the
old ones, and the system calls for the needed watchers succeed. -/
def ReloadMeets (d : Daemon H W) (file : FileContent) : Prop :=
  match construct conffile file with
  | .error _ => True
  | .ok cf => PairsUp d.config.files cf.files ∧ ∃ world', createAll os (inotifyClass os)
      (differing d.config.files cf.files) d.world = .ok () world'

/-- The condition on an event. -/
def EventMeets (d : Daemon H W) : DaemonEvent W → Prop
  | .hangup file => ReloadMeets os conffile d file
  | _ => True

/-- The watchers are those of the configuration. -/
def Corresponds (d : Daemon H W) : Prop := d.watchers.map Watcher.path = d.config.files

/-- A reload of a configuration that is refused. -/
theorem reload_of_error {d : Daemon H W} {file : FileContent} {e : Exn}
    (h : construct conffile file = .error e) (hruntime : e.isRuntimeError = true) :
    d.reload os conffile file = .ok () d := by
  unfold Daemon.reload
  rw [h]
  exact if_pos hruntime

/-- A reload of a configuration that is accepted. -/
theorem reload_of_ok {d : Daemon H W} {file : FileContent} {cf : ConfFile}
    (h : construct conffile file = .ok cf) :
    d.reload os conffile file = match updateWatchers os (inotifyClass os) (some d.config.files)
        cf.files d.watchers d.world with
      | .ok watchers world => .ok () { d with config := cf, watchers, world }
      | .error e world => .error e { d with world } := by
  unfold Daemon.reload
  cases hupdate : updateWatchers os (inotifyClass os) (some d.config.files) cf.files d.watchers
      d.world <;> simp only [h, hupdate]

/-- How a reload of an accepted configuration ends well. -/
theorem reload_of_ok_iff {d d' : Daemon H W} {file : FileContent} {cf : ConfFile}
    (h : construct conffile file = .ok cf) :
    d.reload os conffile file = .ok () d' ↔ ∃ watchers world',
      updateWatchers os (inotifyClass os) (some d.config.files) cf.files d.watchers d.world
        = .ok watchers world' ∧ d' = { d with config := cf, watchers, world := world' } := by
  rw [reload_of_ok os conffile h]
  constructor
  · intro hreload
    split at hreload
    · cases hreload
      exact ⟨_, _, ‹_›, rfl⟩
    · cases hreload
  · rintro ⟨watchers, world', hupdate, rfl⟩
    rw [hupdate]

/-- A reload to an accepted configuration, from watchers that correspond. -/
theorem updateWatchers_corresponds_iff {d : Daemon H W} (hd : Corresponds d) (cf : ConfFile) :
    (∃ watchers world', updateWatchers os (inotifyClass os) (some d.config.files) cf.files
        d.watchers d.world = .ok watchers world' ∧ watchers.map Watcher.path = cf.files) ↔
      PairsUp d.config.files cf.files ∧ ∃ world', createAll os (inotifyClass os)
        (differing d.config.files cf.files) d.world = .ok () world' :=
  updateWatchers_tracks_iff os (inotifyClass os) (fun h => path_of_construct os h) hd cf.files
    d.world

/-- The first watchers are those of the first configuration. -/
theorem corresponds_of_started {d : Daemon H W} (h : DaemonStarted os conffile d) :
    Corresponds d := by
  obtain ⟨file, future, world, world', h⟩ := h
  rw [Daemon.start] at h
  cases hparse : construct conffile file with
  | error e =>
    rw [hparse] at h
    cases h
  | ok cf =>
    cases hupdate : updateWatchers os (inotifyClass os) none cf.files [] world with
    | error e world₁ =>
      rw [hparse] at h
      dsimp only at h
      rw [hupdate] at h
      cases h
    | ok watchers world₁ =>
      rw [hparse] at h
      dsimp only at h
      rw [hupdate] at h
      cases h
      obtain ⟨⟨left, result⟩, world₂, hloop, hresult⟩ := bind_eq_ok_iff.mp hupdate
      cases hresult
      exact map_path_of_updateLoop_none os (inotifyClass os) (fun h => path_of_construct os h)
        List.length_nil hloop

/-- **The step lemma.** -/
theorem corresponds_step {d d' : Daemon H W} {e : DaemonEvent W} (hd : Corresponds d)
    (h : Guarded (DaemonStep os conffile) (EventMeets os conffile) d e d') : Corresponds d' := by
  obtain ⟨hmeets, hstep⟩ := h
  cases hstep with
  | outside world => exact hd
  | check hcheck =>
    -- The pass keeps the configuration, and each watcher its path.
    unfold Daemon.check at hcheck
    split at hcheck
    · cases hcheck
      exact (map_path_of_checkWatchers os ‹_›).trans hd
    · cases hcheck
  | hangup hreload =>
    cases hparse : construct conffile ‹FileContent› with
    | error e =>
      -- A refused configuration changes nothing.
      unfold Daemon.reload at hreload
      rw [hparse] at hreload
      dsimp only at hreload
      split at hreload
      · cases hreload
        exact hd
      · cases hreload
    | ok cf =>
      obtain ⟨watchers, world', hupdate, rfl⟩ := (reload_of_ok_iff os conffile hparse).mp hreload
      rw [EventMeets, ReloadMeets, hparse] at hmeets
      obtain ⟨watchers', world'', hupdate', hcorresponds⟩ :=
        (updateWatchers_corresponds_iff os hd cf).mpr hmeets
      cases hupdate.symm.trans hupdate'
      exact hcorresponds

/-- The run lemma. -/
theorem corresponds_of_reachable {d : Daemon H W}
    (h : Reachable (DaemonStarted os conffile)
      (Guarded (DaemonStep os conffile) (EventMeets os conffile)) d) : Corresponds d :=
  h.invariant (fun _ => corresponds_of_started os conffile) fun _ _ _ =>
    corresponds_step os conffile

/-! ### Atomic reloads -/

/-- The reload takes effect completely, or the daemon goes on as it was; either way it goes
on, and the data of the addresses is unchanged. -/
def ReloadAtomic (d : Daemon H W) (file : FileContent) : Prop :=
  ∃ d', d.reload os conffile file = .ok () d' ∧
    d'.store.addressData = d.store.addressData ∧
    ((construct conffile file = .ok d'.config ∧ Corresponds d') ∨
      (d'.config = d.config ∧ d'.watchers = d.watchers))

/-- The configuration is accepted, or refused with a `std::runtime_error`. -/
def ParseReturns (file : FileContent) : Prop :=
  ∀ e, construct conffile file = .error e → e.isRuntimeError = true

/-- One reload, from watchers that correspond. -/
theorem reloadAtomic_iff_meets {d : Daemon H W} (hd : Corresponds d) {file : FileContent}
    (hparse : ParseReturns conffile file) :
    ReloadAtomic os conffile d file ↔ ReloadMeets os conffile d file := by
  unfold ReloadAtomic ReloadMeets
  cases hfile : construct conffile file with
  | error e =>
    have hreload : d.reload os conffile file = .ok () d :=
      reload_of_error os conffile hfile (hparse e hfile)
    exact iff_of_true ⟨d, hreload, rfl, .inr ⟨rfl, rfl⟩⟩ trivial
  | ok cf =>
    simp only [reload_of_ok_iff os conffile hfile]
    rw [← updateWatchers_corresponds_iff os hd cf]
    constructor
    · rintro ⟨d', ⟨watchers, world', hupdate, rfl⟩, -, hresult⟩
      refine ⟨watchers, world', hupdate, ?_⟩
      rcases hresult with ⟨-, hcorresponds⟩ | ⟨hconfig, hwatchers⟩
      · exact hcorresponds
      · -- Nothing changed, so the watchers still correspond.
        dsimp only at hconfig hwatchers
        rw [hwatchers, hconfig]
        exact hd
    · rintro ⟨watchers, world', hupdate, hcorresponds⟩
      exact ⟨_, ⟨watchers, world', hupdate, rfl⟩, rfl, .inl ⟨rfl, hcorresponds⟩⟩

/-- **Reloads are atomic exactly where their condition holds.** In every run whose reloads
meet the condition, the next reload takes effect completely or leaves everything as it was,
exactly when it meets the condition too. -/
theorem reload_atomic_iff {d : Daemon H W}
    (hd : Reachable (DaemonStarted os conffile)
      (Guarded (DaemonStep os conffile) (EventMeets os conffile)) d)
    {file : FileContent} (hparse : ParseReturns conffile file) :
    ReloadAtomic os conffile d file ↔ ReloadMeets os conffile d file :=
  reloadAtomic_iff_meets os conffile (corresponds_of_reachable os conffile hd) hparse

section
omit [Libc]

/-- A kernel without the directory of any file. -/
def noDirectory : Syscalls Unit Unit :=
  { noFiles with inotifyAddWatch := fun _ _ _ => throw .ENOENT }

/-- A daemon with an empty configuration. -/
def idleDaemon : @Daemon Libc.noMatch Unit Unit :=
  letI := Libc.noMatch
  { config := initial (Bytes.lit "blockad.conf")
    watchers := []
    store := { addressData := ∅, blockCalls := [], future := fun n => ⟨n, .ok false⟩ }
    world := () }

/-- A daemon that watches nothing can start. -/
theorem idleDaemon_started (os : Syscalls Unit Unit) :
    letI := Libc.noMatch
    DaemonStarted os (Bytes.lit "blockad.conf") idleDaemon := by
  let _ := Libc.noMatch
  have hparse : construct (Bytes.lit "blockad.conf") (.ok ([], none))
      = .ok (initial (Bytes.lit "blockad.conf")) := by
    rw [construct_eq_parseLines]
    rfl
  refine ⟨.ok ([], none), fun n => ⟨n, .ok false⟩, (), (), ?_⟩
  unfold Daemon.start
  rw [hparse]
  rfl

/-- A configuration with one file. -/
def watchText : Bytes := Bytes.lit "watch /var/log/auth.log"

/-- A configuration with one file is accepted. -/
theorem construct_watchText :
    letI := Libc.noMatch
    construct (Bytes.lit "blockad.conf") (.ok (watchText, none)) =
      .ok { initial (Bytes.lit "blockad.conf") with
        files := [Bytes.lit "/var/log/auth.log"], lineno := 1 } := by
  let _ := Libc.noMatch
  have hlines : Bytes.lines watchText = [watchText] := by decide
  rw [construct_eq_parseLines, hlines, parseLines, parseLine, Tokenizer.splitLine_eq_run]
  rfl

/-- Its reader returns. -/
theorem parseReturns_watchText :
    letI := Libc.noMatch
    ParseReturns (Bytes.lit "blockad.conf") (.ok (watchText, none)) := by
  let _ := Libc.noMatch
  intro e h
  cases construct_watchText.symm.trans h

/-- A reload that adds the first file. -/
theorem reload_atomic_iff_idleDaemon :
    letI := Libc.noMatch
    ReloadAtomic noFiles (Bytes.lit "blockad.conf") idleDaemon (.ok (watchText, none)) ↔
      ReloadMeets noFiles (Bytes.lit "blockad.conf") idleDaemon (.ok (watchText, none)) := by
  let _ := Libc.noMatch
  exact reload_atomic_iff noFiles _ (.start (idleDaemon_started noFiles)) parseReturns_watchText

/-- The directory of the new file does not exist: the reload ends the daemon. -/
theorem not_reloadAtomic_noDirectory :
    letI := Libc.noMatch
    DaemonStarted noDirectory (Bytes.lit "blockad.conf") idleDaemon ∧
      ParseReturns (Bytes.lit "blockad.conf") (.ok (watchText, none)) ∧
      ¬ ReloadAtomic noDirectory (Bytes.lit "blockad.conf") idleDaemon (.ok (watchText, none)) := by
  let _ := Libc.noMatch
  have hstarted := idleDaemon_started noDirectory
  refine ⟨hstarted, parseReturns_watchText, ?_⟩
  rw [reloadAtomic_iff_meets _ _ (corresponds_of_started _ _ hstarted) parseReturns_watchText,
    ReloadMeets, construct_watchText]
  rintro ⟨-, world', h⟩
  cases h

end

end Blockad.Proofs
