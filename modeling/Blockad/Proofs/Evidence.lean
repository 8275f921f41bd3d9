import Blockad.Proofs.Clients
import Blockad.Proofs.ConfFile
import Blockad.Proofs.Isolation
import Blockad.Proofs.Rotation
import Blockad.Proofs.Signals

/-!
# `Blockad.Proofs.Evidence`: the detections of the daemon are those of its lines

`Blockad.Proofs.Isolation` is about runs of detections. Here the daemon makes them: its watchers
call `processLine`, and each line has the addresses that the patterns capture.

* `ends_processLine`: what one line does to a run of detections.
* `Recorder`: the daemon with a record of the calls of `processLine`. The record changes nothing
  (`exists_recording`).
* `daemon_refines`: every run of the main loop is a run of detections, of the addresses that the
  recorded lines capture, in order.
* `blocked_on_evidence`: no address is blocked without lines that captured it.
-/

set_option autoImplicit false

namespace Blockad.Proofs

open Bytes Prog Runs BlockingWatcher

/-! ### Main loops that record -/

section
variable {σ τ : Type} {view : σ → τ} {body : Body σ} {body' : Body τ} {capacity : Nat}

/-- The process, as far as it is seen. -/
def viewed (view : σ → τ) (s : MainLoop σ) : MainLoop τ :=
  ⟨s.point, s.pending, s.pipe, view s.data⟩

/-- The first body does what the second one does, as far as it is seen. -/
structure Records (view : σ → τ) (body : Body σ) (body' : Body τ) : Prop where
  create : Mirrors id view body.create body'.create
  check : ∀ ready, Mirrors id view (body.check ready) (body'.check ready)
  reload : ∀ file, Mirrors id view (body.reload file) (body'.reload file)
  change : ∀ s t, body'.change (view s) t → ∃ s', body.change s s' ∧ view s' = t

/-- What the second program does, the first one does. -/
theorem mirrors_ok {p : EStateM Halt σ Unit} {p' : EStateM Halt τ Unit}
    (h : Mirrors id view p p') {s : σ} {t : τ} (hrun : p' (view s) = .ok () t) :
    ∃ s', p s = .ok () s' ∧ view s' = t := by
  rw [← h s] at hrun
  cases hp : p s with
  | ok u s' =>
    rw [hp] at hrun
    cases hrun
    exact ⟨s', rfl, rfl⟩
  | error e s' =>
    rw [hp] at hrun
    cases hrun

/-- An exception is seen on the other side. -/
theorem mirrors_error {p : EStateM Halt σ Unit} {p' : EStateM Halt τ Unit}
    (h : Mirrors id view p p') {s : σ} {halt : Halt} {t : τ}
    (hrun : p' (view s) = .error halt t) : ∃ s', p s = .error halt s' ∧ view s' = t := by
  rw [← h s] at hrun
  cases hp : p s with
  | ok u s' =>
    rw [hp] at hrun
    cases hrun
  | error e s' =>
    rw [hp] at hrun
    cases hrun
    exact ⟨s', rfl, rfl⟩

/-- **One step.** -/
theorem Records.step (h : Records view body body') {s : MainLoop σ} {a : LoopAction}
    {t : MainLoop τ} (hstep : MainLoop.Step capacity body' (viewed view s) a t) :
    ∃ s', MainLoop.Step capacity body s a s' ∧ viewed view s' = t := by
  cases hstep with
  | generated => exact ⟨_, .generated s, rfl⟩
  | delivered hpending hpoint => exact ⟨_, .delivered hpending hpoint, rfl⟩
  | changed hchange =>
    obtain ⟨data, hrec, rfl⟩ := h.change _ _ hchange
    exact ⟨_, .changed hrec, rfl⟩
  | created hpoint hrun =>
    obtain ⟨data, hrec, rfl⟩ := mirrors_ok h.create hrun
    exact ⟨_, .created hpoint hrec, rfl⟩
  | unblocked hpoint => exact ⟨_, .unblocked hpoint, rfl⟩
  | selected watchers hpoint hpipe => exact ⟨_, .selected watchers hpoint hpipe, rfl⟩
  | selectFailed errno hpoint => exact ⟨_, .selectFailed errno hpoint, rfl⟩
  | blocked hpoint => exact ⟨_, .blocked hpoint, rfl⟩
  | interrupted hpoint => exact ⟨_, .interrupted hpoint, rfl⟩
  | checked hpoint hrun =>
    obtain ⟨data, hrec, rfl⟩ := mirrors_ok (h.check _) hrun
    exact ⟨_, .checked hpoint hrec, rfl⟩
  | repeated hpoint => exact ⟨_, .repeated hpoint, rfl⟩
  | drained hpoint => exact ⟨_, .drained hpoint, rfl⟩
  | readBegan hpoint => exact ⟨_, .readBegan hpoint, rfl⟩
  | reloaded file hpoint hrun =>
    obtain ⟨data, hrec, rfl⟩ := mirrors_ok (h.reload file) hrun
    exact ⟨_, .reloaded file hpoint hrec, rfl⟩
  | createFailed hpoint hrun =>
    obtain ⟨data, hrec, rfl⟩ := mirrors_error h.create hrun
    exact ⟨_, .createFailed hpoint hrec, rfl⟩
  | unblockFailed hpoint => exact ⟨_, .unblockFailed hpoint, rfl⟩
  | blockFailed hpoint => exact ⟨_, .blockFailed hpoint, rfl⟩
  | selectError hpoint herrno => exact ⟨_, .selectError hpoint herrno, rfl⟩
  | checkFailed hpoint hrun =>
    obtain ⟨data, hrec, rfl⟩ := mirrors_error (h.check _) hrun
    exact ⟨_, .checkFailed hpoint hrec, rfl⟩
  | reloadFailed file hpoint hrun =>
    obtain ⟨data, hrec, rfl⟩ := mirrors_error (h.reload file) hrun
    exact ⟨_, .reloadFailed file hpoint hrec, rfl⟩

/-- **A run**, with what its steps meet as far as it is seen. -/
theorem Records.run (h : Records view body body') {init : MainLoop σ → Prop}
    {init' : MainLoop τ → Prop} (hinit : ∀ t, init' t → ∃ s, init s ∧ viewed view s = t)
    (cond : MainLoop τ → LoopAction → MainLoop τ → Prop) {actions : List LoopAction}
    {t : MainLoop τ}
    (hrun : Run init' (fun t a t' => MainLoop.Step capacity body' t a t' ∧ cond t a t') actions t) :
    ∃ s, Run init (fun s a s' => MainLoop.Step capacity body s a s' ∧
        cond (viewed view s) a (viewed view s')) actions s ∧ viewed view s = t := by
  induction hrun with
  | start ht =>
    obtain ⟨s, hs, rfl⟩ := hinit _ ht
    exact ⟨s, .start hs, rfl⟩
  | next _ hstep ih =>
    obtain ⟨s, hs, rfl⟩ := ih
    obtain ⟨s', hs', rfl⟩ := h.step hstep.1
    exact ⟨s', .next hs ⟨hs', hstep.2⟩, rfl⟩

end

variable [Libc]

/-! ### One line -/

/-- The address that a pattern captures in a line, if it matches and the text is one. -/
def capturedAddress (line : Bytes) (m : Match) : Option Address :=
  match m.regex.execute line with
  | none => none
  | some ms =>
    match capturedText line ms m.capture with
    | .error _ => none
    | .ok text => (Address.assign text).toOption

/-- The addresses that a configuration captures in a line, in the order of its patterns. -/
def captures (entry : ConfFile × Bytes) : List (ConfFile × Address) :=
  (entry.1.patterns.filterMap (capturedAddress entry.2)).map (entry.1, ·)

/-- The configuration and the address of a detection. -/
def Detection.key (d : Detection) : ConfFile × Address := (d.config, d.address)

/-- A run of detections that has come from the first store to this one. -/
structure Explains (first : Store) (j : Journal) (store : Store) : Prop where
  reachable : Reachable (fun j => Journal.Started j ∧ j.store = first) Journal.Step j
  store_eq : j.store = store
  calls_eq : store.blockCalls = j.calls.map Detection.address

/-- The daemon has detected the addresses, and goes on. -/
structure Detects (first : Store) (cf : ConfFile) (j : Journal) (store : Store)
    (keys : List (ConfFile × Address)) : Prop extends Explains first j store where
  running : j.running = true
  config : j.config = cf
  detections : j.detections.map Detection.key = keys

/-- The daemon has detected some of the addresses, and may have stopped then. -/
structure Stopped (first : Store) (j : Journal) (store : Store)
    (keys : List (ConfFile × Address)) : Prop extends Explains first j store where
  detections : j.detections.map Detection.key <+: keys

section
variable {cf : ConfFile} {line : Bytes} {m : Match} {j : Journal} {first store : Store}
  {keys more : List (ConfFile × Address)}

/-- Whole detections are a case of those that may have stopped. -/
theorem Detects.stopped (h : Detects first cf j store keys) : Stopped first j store keys :=
  ⟨h.toExplains, h.detections ▸ List.prefix_refl _⟩

/-- What was not processed any more may be appended. -/
theorem Stopped.append (h : Stopped first j store keys) (more : List (ConfFile × Address)) :
    Stopped first j store (keys ++ more) :=
  ⟨h.toExplains, h.detections.trans (List.prefix_append _ _)⟩

/-- The calls of `block` are only added to. -/
theorem blockCalls_prefix (cf : ConfFile) (a : Address) (s : Store) :
    s.blockCalls <+: (stateOf ((detectedAddress cf a).run s)).blockCalls := by
  rw [detectedAddress_run]
  split
  · exact List.prefix_refl _
  split
  · exact List.prefix_refl _
  dsimp only
  split
  · rcases (s.future 0).block with e | ⟨_ | _⟩ <;> exact List.prefix_append _ _
  · exact List.prefix_refl _

/-- One detection explains the store after it. -/
theorem explains_detect (h : Explains first j store) (hrunning : j.running = true) (a : Address) :
    Explains first (j.detect a) (stateOf ((detectedAddress j.config a).run store)) := by
  obtain ⟨hreach, rfl, hcalls⟩ := h
  refine ⟨.next _ hreach (.detected a hrunning), rfl, ?_⟩
  have hprefix := blockCalls_prefix j.config a j.store
  rw [List.prefix_iff_eq_append.mp hprefix |>.symm, hcalls]
  dsimp only [Journal.detect]
  rw [List.map_append, List.map_map, hcalls]
  congr 1
  simp [Function.comp_def]

/-- **One pattern.** -/
theorem ends_processMatch (h : Detects first cf j store keys) :
    Ends (fun _ s => ∃ j', Detects first cf j' s
        (keys ++ (capturedAddress line m).toList.map (cf, ·)))
      (fun _ s => ∃ j', Stopped first j' s (keys ++ (capturedAddress line m).toList.map (cf, ·)))
      (processMatch cf line m store) := by
  unfold processMatch capturedAddress
  cases m.regex.execute line with
  | none => exact ⟨j, by simpa using h⟩
  | some ms =>
    dsimp only
    cases capturedText line ms m.capture with
    | error e => exact ⟨j, by simpa using h.stopped⟩
    | ok text =>
      dsimp only
      cases Address.assign text with
      | error e => exact ⟨j, by simpa [Except.toOption] using h.stopped⟩
      | ok a =>
        have hexplains := explains_detect h.toExplains h.running a
        obtain ⟨⟨-, rfl, -⟩, -, rfl, rfl⟩ := h
        have hkeys : (j.detect a).detections.map Detection.key
            = j.detections.map Detection.key ++ [(j.config, a)] := by
          simp [Journal.detect, Detection.key]
        have hrunning : (j.detect a).running
            = returned ((detectedAddress j.config a).run j.store) := rfl
        show Ends _ _ ((detectedAddress j.config a).run j.store)
        cases hrun : (detectedAddress j.config a).run j.store with
        | ok u s =>
          rw [hrun] at hexplains hrunning
          exact ⟨_, hexplains, hrunning, rfl, hkeys⟩
        | error e s =>
          rw [hrun] at hexplains
          exact ⟨_, hexplains, hkeys ▸ List.prefix_refl _⟩

/-- **One line.** -/
theorem ends_processLine (h : Detects first cf j store keys) :
    Ends (fun _ s => ∃ j', Detects first cf j' s (keys ++ captures (cf, line)))
      (fun _ s => ∃ j', Stopped first j' s (keys ++ captures (cf, line)))
      (processLine cf line store) := by
  unfold processLine captures
  generalize cf.patterns = patterns
  induction patterns generalizing j store keys with
  | nil => exact ⟨j, by simpa using h⟩
  | cons m patterns ih =>
    have hsplit : ((m :: patterns).filterMap (capturedAddress line)).map (cf, ·)
        = (capturedAddress line m).toList.map (cf, ·)
          ++ (patterns.filterMap (capturedAddress line)).map (cf, ·) := by
      cases hm : capturedAddress line m <;> simp [hm]
    dsimp only at hsplit ih ⊢
    rw [hsplit, ← List.append_assoc, List.forM_eq_forM, List.forM_cons]
    refine Ends.bind ((ends_processMatch h).mono ?_ ?_)
    · rintro _ s ⟨j', hj'⟩
      exact ih hj'
    · rintro _ s ⟨j', hj'⟩
      exact ⟨j', hj'.append _⟩

end

/-! ### The recorder -/

/-- The store, and the lines that `processLine` was called with, each with the configuration
then. -/
abbrev Recorded := Store × List (ConfFile × Bytes)

/-- `processLine`, recorded. -/
def recordLine (cf : ConfFile) (line : Bytes) : EStateM Halt Recorded Unit :=
  fun (store, lines) =>
    match processLine cf line store with
    | .ok () store => .ok () (store, lines ++ [(cf, line)])
    | .error h store => .error h (store, lines ++ [(cf, line)])

/-- The daemon, recorded. -/
structure Recorder (H W : Type) where
  daemon : Daemon H W
  lines : List (ConfFile × Bytes)

namespace Recorder

variable {H W : Type} (os : Syscalls H W)

/-- `Daemon.check`, recorded. -/
def check (ready : Nat → Bool) : EStateM Halt (Recorder H W) Unit := fun r =>
  match checkWatchers os (fun _ => recordLine r.daemon.config) ready 0 r.daemon.watchers
      ((r.daemon.store, r.lines), r.daemon.world) with
  | .ok watchers ((store, lines), world) =>
    .ok () { daemon := { r.daemon with watchers, store, world }, lines }
  | .error h ((store, lines), world) => .error h { daemon := { r.daemon with store, world }, lines }

/-- What calls no `processLine`. -/
def onDaemon (p : EStateM Halt (Daemon H W) Unit) : EStateM Halt (Recorder H W) Unit := fun r =>
  match p r.daemon with
  | .ok () daemon => .ok () { r with daemon }
  | .error h daemon => .error h { r with daemon }

/-- The body of the loops, recorded. -/
def body (conffile : Bytes) : Body (Recorder H W) where
  create := onDaemon (Daemon.create os)
  check := check os
  reload file := onDaemon (Daemon.reload os conffile file)
  change r r' := r' = { r with daemon := { r.daemon with world := r'.daemon.world } }

/-- The start of a record. -/
structure Started (conffile : Bytes) (s : MainLoop (Recorder H W)) : Prop where
  installed : MainLoop.Installed s
  prepared : Prepared conffile s.data.daemon
  lines : s.data.lines = []

end Recorder

/-! ### What is recorded -/

/-- Each line is recorded before it is processed. -/
theorem ends_recordLine {cf : ConfFile} {line : Bytes} {store : Store}
    {lines : List (ConfFile × Bytes)} {post after : Recorded → Prop}
    (h : Ends (fun _ s => post (s, lines ++ [(cf, line)]))
      (fun _ s => after (s, lines ++ [(cf, line)])) (processLine cf line store)) :
    Ends (fun _ => post) (fun _ => after) (recordLine cf line (store, lines)) := by
  unfold recordLine
  dsimp only
  cases hrun : processLine cf line store with
  | ok u s =>
    rw [hrun] at h
    exact h
  | error e s =>
    rw [hrun] at h
    exact h

section
variable {H W : Type} (os : Syscalls H W) {r : Recorder H W} (ready : Nat → Bool)

/-- The pass, for what holds of a store with the lines that it comes from. -/
theorem agree_check (inv after : Recorded → Prop)
    (hline : ∀ line a, inv a → Ends (fun _ => inv) (fun _ => after)
      (recordLine r.daemon.config line a))
    (hafter : ∀ a, inv a → after a) (h : inv (r.daemon.store, r.lines)) :
    EndsAlike (fun r' d => r'.daemon = d ∧ r'.daemon.config = r.daemon.config ∧
        inv (r'.daemon.store, r'.lines))
      (some fun r' d => r'.daemon = d ∧ after (r'.daemon.store, r'.lines))
      (Recorder.check os ready r) (r.daemon.check os ready) := by
  let rel (a : Recorded) (store : Store) : Prop := a.1 = store ∧ inv a
  let last (a : Recorded) (store : Store) : Prop := a.1 = store ∧ after a
  have hcallbacks : Callbacks rel (some last)
      (fun _ : Option (File H) => recordLine r.daemon.config)
      fun _ => processLine r.daemon.config := by
    refine ⟨fun fp line a store ha => ?_, ?_⟩
    case refine_2 =>
      rintro rel' ⟨⟩ a store ha
      exact ⟨ha.1, hafter a ha.2⟩
    obtain ⟨store', lines⟩ := a
    obtain ⟨rfl, ha⟩ := ha
    have hends := hline line _ ha
    unfold recordLine at hends ⊢
    dsimp only at hends ⊢
    cases hrun : processLine r.daemon.config line store' with
    | ok u s =>
      rw [hrun] at hends
      exact ⟨rfl, rfl, hends⟩
    | error e s =>
      rw [hrun] at hends
      exact .error ⟨rfl, hends⟩ e
  have hpass := relates_checkWatchers hcallbacks os ready 0 r.daemon.watchers
    ((r.daemon.store, r.lines), r.daemon.world) (r.daemon.store, r.daemon.world)
    ⟨rfl, rfl, h⟩
  unfold Recorder.check Daemon.check
  cases hrun : checkWatchers os (fun _ => processLine r.daemon.config) ready 0 r.daemon.watchers
      (r.daemon.store, r.daemon.world) with
  | ok watchers t =>
    rw [hrun] at hpass
    obtain ⟨⟨⟨store, lines⟩, world⟩, hrec, hworld, hstore, hinv⟩ := hpass.of_ok
    obtain ⟨store', world'⟩ := t
    obtain rfl : store = store' := hstore
    obtain rfl : world = world' := hworld
    rw [hrec]
    exact ⟨rfl, rfl, rfl, hinv⟩
  | error e t =>
    rw [hrun] at hpass
    obtain ⟨⟨⟨store, lines⟩, world⟩, hrec, hworld, hstore, hafter'⟩ := hpass.of_error
    obtain ⟨store', world'⟩ := t
    obtain rfl : store = store' := hstore
    obtain rfl : world = world' := hworld
    rw [hrec]
    exact .error ⟨rfl, hafter'⟩ e

/-- The same, for the recorder on its own. -/
theorem ends_check (inv after : Recorded → Prop)
    (hline : ∀ line a, inv a → Ends (fun _ => inv) (fun _ => after)
      (recordLine r.daemon.config line a))
    (hafter : ∀ a, inv a → after a) (h : inv (r.daemon.store, r.lines)) :
    Ends
      (fun _ r' => r'.daemon.config = r.daemon.config ∧ inv (r'.daemon.store, r'.lines))
      (fun _ r' => after (r'.daemon.store, r'.lines)) (Recorder.check os ready r) := by
  have hpass := agree_check os ready inv after hline hafter h
  cases hrun : Recorder.check os ready r with
  | ok u r' =>
    rw [hrun] at hpass
    cases hd : r.daemon.check os ready with
    | ok v d =>
      rw [hd] at hpass
      exact hpass.2.2
    | error e d =>
      rw [hd] at hpass
      obtain ⟨r'', hthrown, -⟩ := hpass.of_error
      cases hthrown
  | error e r' =>
    rw [hrun] at hpass
    cases hd : r.daemon.check os ready with
    | ok v d =>
      rw [hd] at hpass
      exact hpass.elim
    | error e' d =>
      rw [hd] at hpass
      exact hpass.of_errors.2.2

end

/-- The store of the daemon comes from the lines, while it runs. -/
def Evident {H W : Type} (first : Store) (r : Recorder H W) : Prop :=
  ∃ j, Detects first r.daemon.config j r.daemon.store (r.lines.flatMap captures)

/-- The store of the daemon comes from some of the lines. -/
def EvidentAtExit {H W : Type} (first : Store) (r : Recorder H W) : Prop :=
  ∃ j, Stopped first j r.daemon.store (r.lines.flatMap captures)

section
variable {H W : Type} {os : Syscalls H W} {conffile : Bytes} {r r' : Recorder H W} {first : Store}

/-- What holds in every state holds at the exit. -/
theorem Evident.atExit (h : Evident first r) : EvidentAtExit first r := by
  obtain ⟨j, hj⟩ := h
  exact ⟨j, hj.stopped⟩

/-- **One pass.** -/
theorem evident_check (ready : Nat → Bool) (h : Evident first r) :
    Ends (fun _ => Evident first) (fun _ => EvidentAtExit first) (Recorder.check os ready r) := by
  let inv (a : Recorded) : Prop := ∃ j, Detects first r.daemon.config j a.1 (a.2.flatMap captures)
  let after (a : Recorded) : Prop := ∃ j, Stopped first j a.1 (a.2.flatMap captures)
  have hline (line : Bytes) (a : Recorded) (ha : inv a) :
      Ends (fun _ => inv) (fun _ => after) (recordLine r.daemon.config line a) := by
    obtain ⟨store, lines⟩ := a
    obtain ⟨j, hj⟩ := ha
    have hends : Ends
        (fun _ s => ∃ j', Detects first r.daemon.config j' s
          (lines.flatMap captures ++ captures (r.daemon.config, line)))
        (fun _ s => ∃ j', Stopped first j' s
          (lines.flatMap captures ++ captures (r.daemon.config, line)))
        (processLine r.daemon.config line store) := ends_processLine hj
    have hflat : (lines ++ [(r.daemon.config, line)]).flatMap captures
        = lines.flatMap captures ++ captures (r.daemon.config, line) := by simp
    refine ends_recordLine (hends.mono ?_ ?_)
    · rintro _ s ⟨j', hj'⟩
      exact ⟨j', hflat ▸ hj'⟩
    · rintro _ s ⟨j', hj'⟩
      exact ⟨j', hflat ▸ hj'⟩
  have hafter (a : Recorded) (ha : inv a) : after a := by
    obtain ⟨j, hj⟩ := ha
    exact ⟨j, hj.stopped⟩
  refine (ends_check os ready inv after hline hafter h).mono ?_ fun _ _ => id
  rintro _ r' ⟨hconfig, hinv⟩
  show Evident first r'
  unfold Evident
  rw [hconfig]
  exact hinv

/-- A reload is one of the run of detections. -/
theorem Evident.reloaded (h : Evident first r) {d : Daemon H W}
    (hstore : d.store = r.daemon.store) : Evident first { r with daemon := d } := by
  obtain ⟨j, ⟨⟨hreach, hsame, hcalls⟩, hrunning, -, hdetections⟩⟩ := h
  refine ⟨{ j with config := d.config }, ⟨⟨.next _ hreach (.reloaded d.config hrunning), ?_, ?_⟩,
    hrunning, rfl, hdetections⟩⟩
  · exact hsame.trans hstore.symm
  · exact hstore ▸ hcalls

/-- What calls no `processLine` keeps the store. -/
theorem evident_onDaemon {p : EStateM Halt (Daemon H W) Unit} (hp : Keeps Daemon.store p)
    (h : Evident first r) :
    Ends (fun _ => Evident first) (fun _ => EvidentAtExit first) (Recorder.onDaemon p r) := by
  have hstore := hp r.daemon
  unfold Recorder.onDaemon
  cases hrun : p r.daemon with
  | ok u d =>
    rw [hrun] at hstore
    exact h.reloaded hstore
  | error e d =>
    rw [hrun] at hstore
    exact (h.reloaded hstore).atExit

/-- The new watchers have no part in the store. -/
theorem keeps_store_create : Keeps Daemon.store (Daemon.create os) := by
  intro d
  unfold Daemon.create
  split <;> rfl

/-- Nor has a reload. -/
theorem keeps_store_reload (file : FileContent) :
    Keeps Daemon.store (Daemon.reload os conffile file) := by
  intro d
  unfold Daemon.reload
  split
  · split <;> rfl
  · split <;> rfl

end

/-! ### The runs of the daemon -/

section
variable {H W : Type} {os : Syscalls H W} {conffile : Bytes} {capacity : Nat}
  {actions : List LoopAction} {first : Store}

/-- The daemon does the same without the record. -/
theorem mirrors_onDaemon (p : EStateM Halt (Daemon H W) Unit) :
    Mirrors id Recorder.daemon (Recorder.onDaemon p) p := by
  intro r
  unfold Recorder.onDaemon
  cases p r.daemon <;> rfl

/-- So does a pass over the watchers. -/
theorem mirrors_check (ready : Nat → Bool) :
    Mirrors id Recorder.daemon (Recorder.check os ready) (Daemon.check os ready) := by
  intro r
  have hline (line : Bytes) (a : Recorded) (_ : True) :
      Ends (fun _ _ => True) (fun _ _ => True) (recordLine r.daemon.config line a) := by
    cases recordLine r.daemon.config line a <;> trivial
  have hpass := agree_check os ready (fun _ => True) (fun _ => True) hline (fun _ => id) trivial
  cases hrun : Recorder.check os ready r with
  | ok u r' =>
    rw [hrun] at hpass
    cases hd : r.daemon.check os ready with
    | ok v d =>
      rw [hd] at hpass
      exact congrArg (EStateM.Result.ok ()) hpass.2.1
    | error e d =>
      rw [hd] at hpass
      obtain ⟨r'', hthrown, -⟩ := hpass.of_error
      cases hthrown
  | error e r' =>
    rw [hrun] at hpass
    cases hd : r.daemon.check os ready with
    | ok v d =>
      rw [hd] at hpass
      exact hpass.elim
    | error e' d =>
      rw [hd] at hpass
      obtain ⟨rfl, hsame, -⟩ := hpass.of_errors
      exact congrArg (EStateM.Result.error e) hsame

/-- The body of the recorded daemon is that of the daemon. -/
theorem records_body :
    Records Recorder.daemon (Recorder.body os conffile) (Daemon.body os conffile) where
  create := mirrors_onDaemon _
  check := mirrors_check
  reload _ := mirrors_onDaemon _
  change r d h := ⟨{ r with daemon := d }, by rw [Recorder.body, h], rfl⟩

/-- **Every run can be recorded.** -/
theorem exists_recording {s : MainLoop (Daemon H W)}
    (h : Run (fun s => MainLoop.Installed s ∧ Prepared conffile s.data)
      (MainLoop.Step capacity (Daemon.body os conffile)) actions s) :
    ∃ r, Run (Recorder.Started conffile) (MainLoop.Step capacity (Recorder.body os conffile))
      actions r ∧ viewed Recorder.daemon r = s := by
  have hinit (t : MainLoop (Daemon H W)) (ht : MainLoop.Installed t ∧ Prepared conffile t.data) :
      ∃ r, Recorder.Started conffile r ∧ viewed Recorder.daemon r = t :=
    ⟨⟨t.point, t.pending, t.pipe, ⟨t.data, []⟩⟩, ⟨⟨ht.1.point, ht.1.pipe⟩, ht.2, rfl⟩, rfl⟩
  obtain ⟨r, hr, rfl⟩ := records_body.run hinit (fun _ _ _ => True)
    (h.mono fun _ _ _ hstep => ⟨hstep, trivial⟩)
  exact ⟨r, hr.mono fun _ _ _ => And.left, rfl⟩

/-- The invariant of the recorded runs. -/
def RecordedAt (first : Store) (s : MainLoop (Recorder H W)) : Prop :=
  EvidentAtExit first s.data ∧ (s.point ≠ .exited → Evident first s.data)

/-- At the start, nothing was recorded. -/
theorem recordedAt_started {s : MainLoop (Recorder H W)} (h : Recorder.Started conffile s) :
    RecordedAt s.data.daemon.store s := by
  obtain ⟨file, future, -, -, hstore⟩ := h.prepared
  have hevident : Evident s.data.daemon.store s.data := by
    refine ⟨⟨s.data.daemon.config, s.data.daemon.store, true, [], []⟩, ⟨⟨.start ?_, rfl, ?_⟩, rfl,
      rfl, ?_⟩⟩
    · exact ⟨⟨by rw [hstore], rfl, rfl, rfl⟩, rfl⟩
    · rw [hstore]
      rfl
    · rw [h.lines]
      rfl
  exact ⟨hevident.atExit, fun _ => hevident⟩

/-- The step lemma. -/
theorem recordedAt_step {s s' : MainLoop (Recorder H W)} {a : LoopAction} (hs : RecordedAt first s)
    (h : MainLoop.Step capacity (Recorder.body os conffile) s a s') : RecordedAt first s' := by
  obtain ⟨hexit, hevident⟩ := hs
  -- The loops do nothing at `exited` any more.
  have hruns {point : Point} (hpoint : s.point = point) (hne : point ≠ .exited) :
      Evident first s.data := hevident (hpoint ▸ hne)
  cases h with
  | generated => exact ⟨hexit, hevident⟩
  | delivered => exact ⟨hexit, hevident⟩
  | changed hchange =>
    rw [show _ = _ from hchange]
    refine ⟨?_, fun hne => (hevident hne).reloaded rfl⟩
    obtain ⟨j, hj⟩ := hexit
    exact ⟨j, hj⟩
  | created hpoint hrun =>
    have hnext := (evident_onDaemon keeps_store_create (hruns hpoint nofun)).ok hrun
    exact ⟨hnext.atExit, fun _ => hnext⟩
  | checked hpoint hrun =>
    have hnext := (evident_check _ (hruns hpoint nofun)).ok hrun
    exact ⟨hnext.atExit, fun _ => hnext⟩
  | reloaded file hpoint hrun =>
    have hnext := (evident_onDaemon (keeps_store_reload file) (hruns hpoint nofun)).ok hrun
    exact ⟨hnext.atExit, fun _ => hnext⟩
  | createFailed hpoint hrun =>
    exact ⟨(evident_onDaemon keeps_store_create (hruns hpoint nofun)).error hrun,
      fun hne => absurd rfl hne⟩
  | checkFailed hpoint hrun =>
    exact ⟨(evident_check _ (hruns hpoint nofun)).error hrun, fun hne => absurd rfl hne⟩
  | reloadFailed file hpoint hrun =>
    exact ⟨(evident_onDaemon (keeps_store_reload file) (hruns hpoint nofun)).error hrun,
      fun hne => absurd rfl hne⟩
  | unblockFailed => exact ⟨hexit, fun hne => absurd rfl hne⟩
  | blockFailed => exact ⟨hexit, fun hne => absurd rfl hne⟩
  | selectError => exact ⟨hexit, fun hne => absurd rfl hne⟩
  | _ =>
    refine ⟨hexit, fun _ => hevident ?_⟩
    rw [‹s.point = _›]
    exact nofun

/-- **In every state** of a run, the record is right. -/
theorem recordedAt_of_run {s₀ s : MainLoop (Recorder H W)} (hstart : Recorder.Started conffile s₀)
    (h : Run (· = s₀) (MainLoop.Step capacity (Recorder.body os conffile)) actions s) :
    RecordedAt s₀.data.daemon.store s := by
  refine h.invariant ?_ fun _ _ _ _ => recordedAt_step
  rintro s rfl
  exact recordedAt_started hstart

/-- **The daemon runs the detections of its lines.** Every run of the main loop can be recorded,
and its store is that of a run of detections. These are the captured addresses of the recorded
lines, in order, and all of them unless the daemon has ended. -/
theorem daemon_refines {s : MainLoop (Daemon H W)}
    (h : Run (fun s => MainLoop.Installed s ∧ Prepared conffile s.data)
      (MainLoop.Step capacity (Daemon.body os conffile)) actions s) :
    ∃ r, Run (Recorder.Started conffile) (MainLoop.Step capacity (Recorder.body os conffile))
        actions r ∧ viewed Recorder.daemon r = s ∧
      ∃ j, Reachable Journal.Started Journal.Step j ∧ j.store = s.data.store ∧
        s.data.store.blockCalls = j.calls.map Detection.address ∧
        j.detections.map Detection.key <+: r.data.lines.flatMap captures ∧
        (s.point ≠ .exited → j.running = true ∧ j.config = s.data.config ∧
          j.detections.map Detection.key = r.data.lines.flatMap captures) := by
  obtain ⟨r, hr, rfl⟩ := exists_recording h
  obtain ⟨s₀, hs₀, hfirst⟩ := hr.exists_first
  obtain ⟨hexit, hevident⟩ := recordedAt_of_run hs₀ hfirst
  refine ⟨r, hr, rfl, ?_⟩
  by_cases hpoint : r.point = .exited
  · obtain ⟨j, hj⟩ := hexit
    exact ⟨j, hj.reachable.of_init fun _ => And.left, hj.store_eq, hj.calls_eq, hj.detections,
      fun hne => absurd hpoint hne⟩
  · obtain ⟨j, hj⟩ := hevident hpoint
    exact ⟨j, hj.reachable.of_init fun _ => And.left, hj.store_eq, hj.calls_eq,
      hj.detections ▸ List.prefix_refl _, fun _ => ⟨hj.running, hj.config, hj.detections⟩⟩

end

/-! ### Evidence -/

/-- A detection of the address that counts. -/
def isEvidence (a : Address) (key : ConfFile × Address) : Bool :=
  key.2 = a && !isExempted key.1 key.2

omit [Libc] in
/-- A detection adds one time at most. -/
theorem length_recordTime_le (times : List Int) (now : Int) (rateInterval : Nat) :
    (recordTime times now rateInterval).length ≤ times.length + 1 := by
  unfold recordTime
  rw [List.length_append, List.length_singleton]
  exact Nat.succ_le_succ (List.dropWhile_sublist _).length_le

/-- Whether a detection counts, as a number. -/
def weight (d : Detection) : Nat := if isExempted d.config d.address then 0 else 1

/-- The times of an address are at most its detections. -/
theorem length_times_count (ad : AddressData) (d : Detection) :
    (count ad d).1.times.length ≤ ad.times.length + weight d := by
  have hrecord := length_recordTime_le ad.times d.attempt.now d.config.rateInterval
  unfold count weight
  cases isExempted d.config d.address with
  | true => simp
  | false =>
    simp only [Bool.false_or, Bool.false_eq_true, if_false]
    split
    · simp
    · split <;> exact hrecord

/-- A `block` needs more detections than the rate allows. -/
theorem rateMax_lt_of_mem_count {ad : AddressData} {d o : Detection} (h : o ∈ (count ad d).2) :
    d.config.rateMax < ad.times.length + 1 := by
  have hrecord := length_recordTime_le ad.times d.attempt.now d.config.rateInterval
  unfold count at h
  split at h
  · cases h
  · dsimp only at h
    split at h
    · omega
    · cases h

/-- A call of `block` comes after more than `rate_max` detections that count. -/
theorem evidence_of_mem_calls {ad : AddressData} {ds : List Detection} {d : Detection}
    (h : d ∈ (count.run ad ds).2) :
    d ∈ ds ∧ isExempted d.config d.address = false ∧ d.config.rateMax <
      ad.times.length + ds.countP fun d => !isExempted d.config d.address := by
  induction ds generalizing ad with
  | nil => cases h
  | cons d' ds ih =>
    have hcount : (d' :: ds).countP (fun d => !isExempted d.config d.address)
        = (ds.countP fun d => !isExempted d.config d.address) + weight d' := by
      rw [List.countP_cons, weight]
      cases isExempted d'.config d'.address <;> rfl
    rw [hcount]
    rcases List.mem_append.mp h with h | h
    · -- The call is made at this detection.
      have hrate := rateMax_lt_of_mem_count h
      obtain ⟨rfl, hexempt⟩ := eq_of_mem_count h
      have hweight : weight d = 1 := by rw [weight, hexempt]; rfl
      exact ⟨List.mem_cons_self, hexempt, by omega⟩
    · obtain ⟨hmem, hexempt, hlt⟩ := ih h
      have htimes := length_times_count ad d'
      exact ⟨List.mem_cons_of_mem _ hmem, hexempt, by omega⟩

/-- The captures of an address that count, in the recorded lines. -/
theorem countP_detectionsOf_le {j : Journal} {keys : List (ConfFile × Address)} (a : Address)
    (h : j.detections.map Detection.key <+: keys) :
    ((j.detectionsOf a).countP fun d => !isExempted d.config d.address)
      ≤ keys.countP (isEvidence a) := by
  have hkeys : (j.detectionsOf a).countP (fun d => !isExempted d.config d.address)
      = (j.detections.map Detection.key).countP (isEvidence a) := by
    rw [Journal.detectionsOf, List.countP_filter, List.countP_map]
    refine List.countP_congr fun d _ => ?_
    have hkey : (isEvidence a ∘ Detection.key) d
        = (decide (d.address = a) && !isExempted d.config d.address) := rfl
    rw [hkey, Bool.and_comm]
  rw [hkeys]
  exact h.sublist.countP_le

/-- The evidence for the calls of `block` so far. -/
theorem evidence_of_recordedAt {H W : Type} {first : Store} {r : MainLoop (Recorder H W)}
    (h : RecordedAt first r) {a : Address} (ha : a ∈ r.data.daemon.store.blockCalls) :
    ∃ entry ∈ r.data.lines, (entry.1, a) ∈ captures entry ∧ isExempted entry.1 a = false ∧
      entry.1.rateMax < (r.data.lines.flatMap captures).countP (isEvidence a) := by
  obtain ⟨⟨j, ⟨⟨hreach, -, hcalls⟩, hkeys⟩⟩, -⟩ := h
  rw [hcalls] at ha
  obtain ⟨d, hd, rfl⟩ := List.mem_map.mp ha
  have hown : d ∈ j.callsOf d.address := List.mem_filter.mpr ⟨hd, by simp⟩
  rw [(journal_simulates (hreach.of_init fun _ => And.left) d.address).2] at hown
  obtain ⟨hmem, hexempt, hlt⟩ := evidence_of_mem_calls hown
  have hle := countP_detectionsOf_le d.address hkeys
  -- The detection is a capture of one of the lines.
  have hkey : d.key ∈ r.data.lines.flatMap captures :=
    hkeys.subset (List.mem_map_of_mem (List.mem_filter.mp hmem).1)
  obtain ⟨entry, hentry, hcaptured⟩ := List.mem_flatMap.mp hkey
  have hconfig : entry.1 = d.config := by
    obtain ⟨b, -, hb⟩ := List.mem_map.mp hcaptured
    exact congrArg Prod.fst hb
  refine ⟨entry, hentry, hconfig ▸ hcaptured, hconfig ▸ hexempt, ?_⟩
  rw [hconfig]
  simp only [List.length_nil] at hlt
  omega

/-- **No address is blocked without evidence.** Each call of `block` is for an address that a
recorded line captures, under a configuration that does not exempt it; and more of the captures so
far count for it than this configuration allows. -/
theorem blocked_on_evidence {H W : Type} {os : Syscalls H W} {conffile : Bytes} {capacity : Nat}
    {actions : List LoopAction} {s : MainLoop (Daemon H W)}
    (h : Run (fun s => MainLoop.Installed s ∧ Prepared conffile s.data)
      (MainLoop.Step capacity (Daemon.body os conffile)) actions s) :
    ∃ r, Run (Recorder.Started conffile) (MainLoop.Step capacity (Recorder.body os conffile))
        actions r ∧ viewed Recorder.daemon r = s ∧
      ∀ a ∈ s.data.store.blockCalls, ∃ entry ∈ r.data.lines, (entry.1, a) ∈ captures entry ∧
        isExempted entry.1 a = false ∧
        entry.1.rateMax < (r.data.lines.flatMap captures).countP (isEvidence a) := by
  obtain ⟨r, hr, rfl⟩ := exists_recording h
  obtain ⟨s₀, hs₀, hfirst⟩ := hr.exists_first
  exact ⟨r, hr, rfl, fun a ha => evidence_of_recordedAt (recordedAt_of_run hs₀ hfirst) ha⟩

/-! ### Two lines -/

section
omit [Libc]

open ConfFile

/-- A library that matches each line without its end. -/
abbrev wholeLine : Libc := Libc.ofGroups 1 fun s =>
  let span : Span s.length := ⟨0, s.length - 1, Nat.zero_le _, Nat.sub_le _ _⟩
  some fun i => if i ≤ 1 then some span else none

/-- The configuration file. -/
def wholeLineText : Bytes := lit "watch /log\naddress '(.*)'\nrate 1/hour\n"

/-- The configuration that it makes. -/
def wholeLineConfig : @ConfFile wholeLine :=
  letI := wholeLine
  { initial (lit "blockad.conf") with
    files := [lit "/log"], patterns := [⟨⟨(), regExtended⟩, 1⟩], rateMax := 1, lineno := 3 }

/-- The configuration of the example is accepted. -/
theorem construct_wholeLineText :
    letI := wholeLine
    construct (lit "blockad.conf") (.ok (wholeLineText, none)) = .ok wholeLineConfig := by
  let _ := wholeLine
  have hlines : lines wholeLineText =
      [lit "watch /log", lit "address '(.*)'", lit "rate 1/hour"] := by decide
  have hwatch : parseLine { initial (lit "blockad.conf") with lineno := 1 } (lit "watch /log") =
      .ok { initial (lit "blockad.conf") with files := [lit "/log"], lineno := 1 } := by
    rw [parseLine, Tokenizer.splitLine_eq_run]
    rfl
  have haddress : parseLine
      { initial (lit "blockad.conf") with files := [lit "/log"], lineno := 2 }
      (lit "address '(.*)'") = .ok { initial (lit "blockad.conf") with
        files := [lit "/log"], patterns := [⟨⟨(), regExtended⟩, 1⟩], lineno := 2 } := by
    rw [parseLine, Tokenizer.splitLine_eq_run]
    rfl
  have hrate : parseLine { initial (lit "blockad.conf") with
        files := [lit "/log"], patterns := [⟨⟨(), regExtended⟩, 1⟩], lineno := 3 }
      (lit "rate 1/hour") = .ok wholeLineConfig := by
    rw [parseLine, Tokenizer.splitLine_eq_run]
    rfl
  rw [construct_eq_parseLines, hlines]
  exact (parseLines_of_ok hwatch).trans ((parseLines_of_ok haddress).trans (parseLines_of_ok hrate))

/-- The daemon with this configuration, before it has watchers. -/
def wholeLineDaemon : @Daemon wholeLine Handle Filesystem :=
  letI := wholeLine
  { config := wholeLineConfig
    watchers := []
    store := { addressData := ∅, blockCalls := [], future := fun n => ⟨n, .ok true⟩ }
    world := oneFile }

/-- A result that returned has its state. -/
theorem eq_ok_of_returned {ε σ : Type} {r : EStateM.Result ε σ Unit} (h : returned r = true) :
    r = .ok () (stateOf r) := by
  cases r with
  | ok u s => rfl
  | error e s => cases h

/-- When it has its watcher, and 192.0.2.1 is in two lines. -/
def twoLines : @Daemon wholeLine Handle Filesystem :=
  letI := wholeLine
  let d := stateOf (Daemon.create (kernel (lit "/log") 1) wholeLineDaemon)
  { d with world := d.world.change (lit "log") (.append 0 (lit "192.0.2.1\n192.0.2.1\n")) }

/-- When they were read. -/
def twoLinesRead : @Daemon wholeLine Handle Filesystem :=
  letI := wholeLine
  stateOf (Daemon.check (kernel (lit "/log") 1) (fun _ => true) twoLines)

/-- Its watcher can be made. -/
theorem create_wholeLineDaemon :
    letI := wholeLine
    Daemon.create (kernel (lit "/log") 1) wholeLineDaemon
      = .ok () (stateOf (Daemon.create (kernel (lit "/log") 1) wholeLineDaemon)) :=
  eq_ok_of_returned (by decide +kernel)

/-- The two lines are read in one pass. -/
theorem check_twoLines :
    letI := wholeLine
    Daemon.check (kernel (lit "/log") 1) (fun _ => true) twoLines = .ok () twoLinesRead :=
  eq_ok_of_returned (by decide +kernel)

/-- The address in them is blocked. -/
theorem blockCalls_twoLinesRead :
    letI := wholeLine
    twoLinesRead.store.blockCalls = [⟨mapped4 #v[192, 0, 2, 1]⟩] := by decide +kernel

/-- SIGHUP does not come. -/
def readActions : List LoopAction :=
  [.created, .changed, .unblocked, .selected, .blocked, .checked]

/-- One turn of the inner loop. -/
theorem run_turn {σ : Type} {body : Body σ} {capacity : Nat} {init : MainLoop σ → Prop}
    {d₀ d₁ d₂ d₃ : σ} (hinit : init ⟨.installed, false, 0, d₀⟩)
    (hcreate : body.create d₀ = .ok () d₁) (hchange : body.change d₁ d₂)
    (hcheck : body.check (fun _ => true) d₂ = .ok () d₃) :
    Run init (MainLoop.Step capacity body) readActions ⟨.checked false, false, 0, d₃⟩ := by
  have hstart : Run init (MainLoop.Step capacity body) [] ⟨.installed, false, 0, d₀⟩ :=
    .start hinit
  have hchanged := (hstart.next (.created rfl hcreate)).next (.changed hchange)
  have hblocked := ((hchanged.next (.unblocked rfl)).next
    (.selected (fun _ => true) rfl (by decide : false = true ↔ 0 < 0))).next (.blocked rfl)
  exact hblocked.next (.checked rfl hcheck)

/-- The actions of one pass: the daemon is created, a file grows, and a pass reads it. -/
theorem run_readActions [Libc] {H W : Type} {os : Syscalls H W} {conffile : Bytes} {capacity : Nat}
    {d₀ d₁ d₂ d₃ : Daemon H W} (hprepared : Prepared conffile d₀)
    (hcreate : Daemon.create os d₀ = .ok () d₁) (hchange : d₂ = { d₁ with world := d₂.world })
    (hcheck : Daemon.check os (fun _ => true) d₂ = .ok () d₃) :
    Run (fun s => MainLoop.Installed s ∧ Prepared conffile s.data)
      (MainLoop.Step capacity (Daemon.body os conffile)) readActions
      ⟨.checked false, false, 0, d₃⟩ :=
  run_turn ⟨⟨rfl, rfl⟩, hprepared⟩ hcreate hchange hcheck

/-- The run of the example. -/
theorem run_twoLinesRead :
    letI := wholeLine
    Run (fun s => MainLoop.Installed s ∧ Prepared (lit "blockad.conf") s.data)
      (MainLoop.Step 65536 (Daemon.body (kernel (lit "/log") 1) (lit "blockad.conf")))
      readActions ⟨.checked false, false, 0, twoLinesRead⟩ := by
  let _ := wholeLine
  have hprepared : Prepared (lit "blockad.conf") wholeLineDaemon :=
    ⟨.ok (wholeLineText, none), fun n => ⟨n, .ok true⟩, construct_wholeLineText, rfl, rfl⟩
  exact run_readActions hprepared create_wholeLineDaemon rfl check_twoLines

/-- Two lines, recorded. -/
theorem daemon_refines_twoLinesRead :
    letI := wholeLine
    ∃ j : Journal, Reachable Journal.Started Journal.Step j ∧ j.store = twoLinesRead.store ∧
      j.calls.map Detection.address = [⟨mapped4 #v[192, 0, 2, 1]⟩] := by
  let _ := wholeLine
  obtain ⟨r, -, -, j, hreach, hstore, hcalls, -⟩ := daemon_refines run_twoLinesRead
  dsimp only at hstore hcalls
  exact ⟨j, hreach, hstore, hcalls.symm.trans blockCalls_twoLinesRead⟩

/-- Two lines, and one call of `block`. -/
theorem blocked_on_evidence_twoLinesRead :
    letI := wholeLine
    ∃ (lines : List (ConfFile × Bytes)), ∃ entry ∈ lines,
      (entry.1, ⟨mapped4 #v[192, 0, 2, 1]⟩) ∈ captures entry ∧
        entry.1.rateMax < (lines.flatMap captures).countP
          (isEvidence ⟨mapped4 #v[192, 0, 2, 1]⟩) := by
  let _ := wholeLine
  obtain ⟨r, -, -, hevidence⟩ := blocked_on_evidence run_twoLinesRead
  dsimp only at hevidence
  have hcalled : ⟨mapped4 #v[192, 0, 2, 1]⟩ ∈ twoLinesRead.store.blockCalls := by
    rw [blockCalls_twoLinesRead]
    exact List.mem_cons_self
  obtain ⟨entry, hentry, hcaptured, -, hrate⟩ := hevidence _ hcalled
  exact ⟨r.data.lines, entry, hentry, hcaptured, hrate⟩

end

end Blockad.Proofs
