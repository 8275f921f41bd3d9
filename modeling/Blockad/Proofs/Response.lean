import Blockad.Proofs.Signals

/-!
# `Blockad.Proofs.Response`: SIGHUP is answered

A reload request that is not lost may still wait for ever. The loops come to it soon: they have to
look at the pipe once, and only an interrupted `select` sends them back.

* `Prompt`: a pending signal is delivered as soon as it is not blocked, before the program goes on.
* `remaining`: how many steps the program makes until it reads the configuration.
* `owed_step`: each step of the program is one less, unless it reads the configuration or exits.
* `sighup_answered`: after a SIGHUP, the program makes a bounded number of steps until then, and it
  can always make the next one.
-/

set_option autoImplicit false

namespace Blockad.Proofs

open Runs

variable {σ : Type} {capacity : Nat} {body : Body σ}

/-- A step of the program, and not of its environment. -/
def isOwn : LoopAction → Bool
  | .generated => false
  | .delivered => false
  | .changed => false
  | _ => true

/-- `select` returned with `EINTR`. -/
def isInterrupted : LoopAction → Bool
  | .interrupted => true
  | _ => false

/-- Where SIGHUP is not blocked, a pending one is delivered before the program goes on. -/
def Prompt (s : MainLoop σ) (a : LoopAction) : Prop :=
  isOwn a = true → s.point.unblocked = true → s.pending = false

/-- The program has to read the configuration. -/
def Owed (s : MainLoop σ) : Prop := s.pending = true ∨ 0 < s.pipe ∨ s.point = .drained

/-- The steps until the configuration is read, if the pipe is not empty when `select` looks. -/
def remaining : Point → Nat
  | .exited => 0
  | .drained => 1
  | .checked true => 2
  | .blocked (.failed _) => 3
  | .blocked (.ready true _) => 3
  | .selected (.failed _) => 4
  | .selected (.ready true _) => 4
  | .waiting => 5
  | .top => 6
  | .installed => 7
  | .reading => 7
  | .checked false => 7
  -- The pipe was empty, and `select` has to look again.
  | .blocked (.ready false _) => 8
  | .selected (.ready false _) => 9

/-- No point is further away than nine steps. -/
theorem remaining_le (point : Point) : remaining point ≤ 9 := by
  unfold remaining
  split <;> decide

/-- The configuration is read, or the program ends. -/
def IsAnswer (a : LoopAction) : Prop := a = .readBegan ∨ a = .exited

/-- A step that leaves the signal and the pipe alone. -/
theorem Owed.of_eq {s s' : MainLoop σ} (h : Owed s) (hpoint : s.point ≠ .drained)
    (hpending : s'.pending = s.pending) (hpipe : s'.pipe = s.pipe) : Owed s' := by
  unfold Owed
  rw [hpending, hpipe]
  rcases h with h | h | h
  · exact .inl h
  · exact .inr (.inl h)
  · exact absurd h hpoint

/-- **The step lemma.** -/
theorem owed_step (hcapacity : 0 < capacity) {s s' : MainLoop σ} {a : LoopAction} (hs : Owed s)
    (h : Guarded (MainLoop.Step capacity body) Prompt s a s') (ha : ¬ IsAnswer a) :
    Owed s' ∧ remaining s'.point + (if isOwn a then 1 else 0) ≤
      remaining s.point + if isInterrupted a then 4 else 0 := by
  obtain ⟨hprompt, hstep⟩ := h
  cases hstep with
  | generated => exact ⟨.inl rfl, le_rfl⟩
  | delivered hpending hpoint =>
    refine ⟨.inr (.inl ?_), le_rfl⟩
    show 0 < SelfPipe.write capacity s.pipe
    unfold SelfPipe.write
    split <;> omega
  | changed => exact ⟨hs, le_rfl⟩
  | @selected pipe watchers hpoint hpipe =>
    -- The handler has run, so that the pipe is not empty.
    have hpending := hprompt rfl (by rw [hpoint]; rfl)
    have hready : 0 < s.pipe := by
      rcases hs with hs | hs | hs
      · rw [hpending] at hs
        cases hs
      · exact hs
      · rw [hpoint] at hs
        cases hs
    rw [hpipe.mpr hready, hpoint]
    exact ⟨.inr (.inl hready), le_rfl⟩
  | drained hpoint =>
    rw [hpoint]
    exact ⟨.inr (.inr rfl), le_rfl⟩
  | readBegan => exact absurd (.inl rfl) ha
  | createFailed => exact absurd (.inr rfl) ha
  | unblockFailed => exact absurd (.inr rfl) ha
  | blockFailed => exact absurd (.inr rfl) ha
  | selectError => exact absurd (.inr rfl) ha
  | checkFailed => exact absurd (.inr rfl) ha
  | reloadFailed => exact absurd (.inr rfl) ha
  | selectFailed errno hpoint =>
    have hne : s.point ≠ .drained := by simp [hpoint]
    rw [hpoint]
    exact ⟨hs.of_eq hne rfl rfl, le_rfl⟩
  | @blocked result hpoint =>
    have hne : s.point ≠ .drained := by simp [hpoint]
    refine ⟨hs.of_eq hne rfl rfl, ?_⟩
    rw [hpoint]
    rcases result with errno | ⟨_ | _, watchers⟩ <;> exact le_rfl
  | @checked pipe watchers data hpoint =>
    have hne : s.point ≠ .drained := by simp [hpoint]
    refine ⟨hs.of_eq hne rfl rfl, ?_⟩
    rw [hpoint]
    cases pipe <;> exact le_rfl
  | _ =>
    have hne : s.point ≠ .drained := by simp [‹s.point = _›]
    refine ⟨hs.of_eq hne rfl rfl, ?_⟩
    rw [‹s.point = _›]
    exact le_rfl

/-- The program can always go on, or a signal is delivered. -/
theorem prompt_progress (body : Body σ) {s : MainLoop σ} (hpoint : s.point ≠ .exited) :
    ∃ a s', Guarded (MainLoop.Step capacity body) Prompt s a s' ∧
      (isOwn a = true ∨ a = .delivered) := by
  -- Where SIGHUP is blocked, nothing has to be delivered first.
  have hown {a : LoopAction} {s' : MainLoop σ} (hstep : MainLoop.Step capacity body s a s')
      (hblocked : s.point.unblocked = false ∨ s.pending = false) (ha : isOwn a = true) :
      ∃ a s', Guarded (MainLoop.Step capacity body) Prompt s a s' ∧
        (isOwn a = true ∨ a = .delivered) := by
    refine ⟨a, s', ⟨fun _ hunblocked => ?_, hstep⟩, .inl ha⟩
    rcases hblocked with hblocked | hpending
    · rw [hunblocked] at hblocked
      cases hblocked
    · exact hpending
  by_cases hwait : s.point.unblocked = true ∧ s.pending = true
  · exact ⟨.delivered, _, ⟨nofun, .delivered hwait.2 hwait.1⟩, .inr rfl⟩
  have hfree : s.point.unblocked = false ∨ s.pending = false := by
    cases hunblocked : s.point.unblocked with
    | false => exact .inl rfl
    | true => exact .inr (by simpa [hunblocked] using hwait)
  cases hp : s.point with
  | exited => exact absurd hp hpoint
  | installed =>
    cases hrun : body.create s.data with
    | ok u data => exact hown (.created hp hrun) hfree rfl
    | error halt data => exact hown (.createFailed hp hrun) hfree rfl
  | top => exact hown (.unblocked hp) hfree rfl
  | waiting =>
    have hready : decide (0 < s.pipe) = true ↔ 0 < s.pipe := decide_eq_true_iff
    exact hown (.selected (fun _ => false) hp hready) hfree rfl
  | selected result => exact hown (.blocked hp) hfree rfl
  | blocked result =>
    cases result with
    | failed errno =>
      by_cases herrno : errno = .EINTR
      · rw [herrno] at hp
        exact hown (.interrupted hp) hfree rfl
      · exact hown (.selectError hp herrno) hfree rfl
    | ready pipe watchers =>
      cases hrun : body.check watchers s.data with
      | ok u data => exact hown (.checked hp hrun) hfree rfl
      | error halt data => exact hown (.checkFailed hp hrun) hfree rfl
  | checked pipe =>
    cases pipe with
    | true => exact hown (.drained hp) hfree rfl
    | false => exact hown (.repeated hp) hfree rfl
  | drained => exact hown (.readBegan hp) hfree rfl
  | reading =>
    let file : FileContent := .ok ([], none)
    cases hrun : body.reload file s.data with
    | ok u data => exact hown (.reloaded file hp hrun) hfree rfl
    | error halt data => exact hown (.reloadFailed file hp hrun) hfree rfl

/-- **SIGHUP is answered.** -/
theorem sighup_answered (hcapacity : 0 < capacity) {s₀ s : MainLoop σ} {actions : List LoopAction}
    (h : Run (· = { s₀ with pending := true }) (Guarded (MainLoop.Step capacity body) Prompt)
      actions s) :
    (.readBegan ∈ actions ∨ .exited ∈ actions ∨
        actions.countP isOwn ≤ 9 + 4 * actions.countP isInterrupted) ∧
      (s.point ≠ .exited → ∃ a s', Guarded (MainLoop.Step capacity body) Prompt s a s' ∧
        (isOwn a = true ∨ a = .delivered)) := by
  refine ⟨?_, prompt_progress body⟩
  by_cases hread : .readBegan ∈ actions
  · exact .inl hread
  by_cases hexited : .exited ∈ actions
  · exact .inr (.inl hexited)
  refine .inr (.inr ?_)
  have hstop : ∀ a ∈ actions, ¬ IsAnswer a := by
    rintro a ha (rfl | rfl)
    · exact hread ha
    · exact hexited ha
  have howed : Owed { s₀ with pending := true } := .inl rfl
  have hstep : ∀ s a s', Owed s → Guarded (MainLoop.Step capacity body) Prompt s a s' →
      ¬ IsAnswer a → Owed s' ∧ remaining s'.point + (if isOwn a then 1 else 0) ≤
        remaining s.point + if isInterrupted a then 4 else 0 := fun _ _ _ => owed_step hcapacity
  have hbound := (h.countP_le hstep howed hstop).2
  have hfirst := remaining_le s₀.point
  dsimp only at hbound
  omega

/-! ### One late request -/

/-- The idle daemon, when `select` has returned for a logfile. -/
def lateStart : letI := Libc.noMatch; MainLoop (Daemon Unit Unit) :=
  letI := Libc.noMatch
  ⟨.selected (.ready false fun _ => true), false, 0, idleDaemon⟩

/-- SIGHUP has just missed `select`. -/
def lateActions : List LoopAction :=
  [.delivered, .blocked, .checked, .repeated, .unblocked, .selected, .blocked, .checked, .drained]

/-- The idle daemon, when the pipe was drained. -/
def lateDrained : letI := Libc.noMatch; MainLoop (Daemon Unit Unit) :=
  letI := Libc.noMatch
  ⟨.drained, false, 0, idleDaemon⟩

/-- A run up to the read of the pipe. -/
theorem run_lateDrained :
    letI := Libc.noMatch
    Run (· = { lateStart with pending := true })
      (Guarded (MainLoop.Step 65536 idleBody) Prompt) lateActions lateDrained := by
  let _ := Libc.noMatch
  have hstart : Run (· = { lateStart with pending := true })
      (Guarded (MainLoop.Step 65536 idleBody) Prompt) [] { lateStart with pending := true } :=
    .start rfl
  have hchecked := ((hstart.next ⟨by nofun, .delivered rfl rfl⟩).next
    ⟨fun _ _ => rfl, .blocked rfl⟩).next ⟨fun _ => by nofun, .checked rfl rfl⟩
  have hwaiting := (hchecked.next ⟨fun _ => by nofun, .repeated rfl⟩).next
    ⟨fun _ => by nofun, .unblocked rfl⟩
  have hselected := hwaiting.next
    ⟨fun _ _ => rfl, .selected (fun _ => false) rfl (iff_of_true rfl Nat.one_pos)⟩
  exact ((hselected.next ⟨fun _ _ => rfl, .blocked rfl⟩).next
    ⟨fun _ => by nofun, .checked rfl rfl⟩).next ⟨fun _ => by nofun, .drained rfl⟩

/-- The configuration can be read next. -/
theorem sighup_answered_lateDrained :
    letI := Libc.noMatch
    ∃ a s', Guarded (MainLoop.Step 65536 idleBody) Prompt lateDrained a s' ∧
      (isOwn a = true ∨ a = .delivered) := by
  let _ := Libc.noMatch
  exact (sighup_answered (by decide : 0 < 65536) run_lateDrained).2 nofun

end Blockad.Proofs
