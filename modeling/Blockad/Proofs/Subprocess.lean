import Blockad.Lib.Inevitably
import Blockad.Lib.Runs
import Blockad.Model.Subprocess
import Blockad.Proofs.Dump
import Mathlib.Algebra.GroupWithZero.Nat

/-!
# `Blockad.Proofs.Subprocess`: `execute` and its subprocess

What the parent makes sure of by the order of its calls. It closes its own write end before it
reads, so the end of the output comes; it reads to the end before it waits, so no writer is left
waiting for room.

* `holds_acts`, `size_acts`: what a step of a process can open, and that it leaves less to do.
* `Phase`: the invariant, one case for each point of the parent.
* `execute_returns`: when `execute` returns, nobody can write any more, and it has the whole output
  and the status of the child. With a status that is not zero it has logged the output.
* `execute_ends`: it returns in every order of the steps.
* `image_plumbed`: the standard output and error of the command are the pipe, and no other
  descriptor of it is.
-/

set_option autoImplicit false

namespace Blockad.Proofs

open Bytes Execute Inevitability Prog Runs Subprocess

/-! ### One step of a process -/

/-- The process, or one that it starts, has the object open after the step. -/
def HeldAfter (e : Effect) (o : Object) : Prop :=
  (∃ p, e.outcome = .ok p ∧ p.fds.Holds o) ∨ ∃ p ∈ e.started, p.fds.Holds o

section
variable {room : Nat} {reader : Prop} {p : Process} {e : Effect}

/-- What a process holds as it goes on, it held before. -/
theorem heldAfter_goesOn {q : Process} {o : Object} (h : HeldAfter q.goesOn o)
    (hq : q.fds.Holds o → p.fds.Holds o) : p.fds.Holds o := by
  rcases h with ⟨q', hq', hholds⟩ | ⟨q', hq', -⟩
  · cases hq'
    exact hq hholds
  · cases hq'

/-- A duplicate holds what one descriptor held. -/
theorem holds_dup2 {t : Descriptors} {o o' : Object} {old new : Nat} (hold : t old = some o)
    (h : (t.dup2 o new).Holds o') : t.Holds o' := by
  obtain ⟨fd, hfd⟩ := h
  unfold Descriptors.dup2 at hfd
  by_cases heq : fd = new
  · rw [heq, Function.update_self] at hfd
    exact ⟨old, hold.trans hfd⟩
  · rw [Function.update_of_ne heq] at hfd
    exact ⟨fd, hfd⟩

/-- A close gives nothing to hold. -/
theorem holds_close {t : Descriptors} {o : Object} {fd : Nat} (h : (t.close fd).Holds o) :
    t.Holds o := by
  obtain ⟨fd', hfd⟩ := h
  unfold Descriptors.close at hfd
  by_cases heq : fd' = fd
  · rw [heq, Function.update_self] at hfd
    cases hfd
  · rw [Function.update_of_ne heq] at hfd
    exact ⟨fd', hfd⟩

/-- A process can open an end of the pipe only if it has it open. -/
theorem holds_acts {o : Object} (h : Acts room reader p e) (ho : HeldAfter e o) :
    p.fds.Holds o := by
  cases h with
  | exited htodo =>
    rcases ho with ⟨p', hp', -⟩ | ⟨p', hp', -⟩ <;> cases hp'
  | dup2 htodo hold => exact heldAfter_goesOn ho (holds_dup2 hold)
  | dup2Failed htodo => exact heldAfter_goesOn ho id
  | closed htodo hfd => exact heldAfter_goesOn ho holds_close
  | closeFailed htodo => exact heldAfter_goesOn ho id
  | called htodo => exact heldAfter_goesOn ho id
  | callFailed htodo => exact heldAfter_goesOn ho id
  | executed htodo => exact heldAfter_goesOn ho id
  | execvpFailed htodo => exact heldAfter_goesOn ho id
  | wrote htodo hfd hreader hpos hle hroom =>
    rcases ho with ⟨p', hp', hholds⟩ | ⟨p', hp', -⟩
    · cases hp'
      exact hholds
    · cases hp'
  | wroteAll htodo => exact heldAfter_goesOn ho id
  | wroteElsewhere htodo hfd => exact heldAfter_goesOn ho id
  | killed htodo hfd hreader htext =>
    rcases ho with ⟨p', hp', -⟩ | ⟨p', hp', -⟩ <;> cases hp'
  | forked htodo =>
    rcases ho with ⟨p', hp', hholds⟩ | ⟨p', hp', hholds⟩
    · cases hp'
      exact hholds
    · rw [List.mem_singleton.mp hp'] at hholds
      exact hholds

/-- Only a process with the write end can write. -/
theorem wrote_acts (h : Acts room reader p e) (hp : ¬ p.fds.Holds .writeEnd) : e.wrote = [] := by
  cases h with
  | wrote htodo hfd hreader hpos hle hroom => exact absurd ⟨_, hfd⟩ hp
  | _ => rfl

/-! ### The steps that are left -/

/-- A bound for the steps of a behaviour. A byte counts twice: it is also read. -/
def stepsLeft : Behaviour → Nat
  | .exit _ => 1
  | .dup2 _ _ failed next => stepsLeft failed + stepsLeft next + 1
  | .close _ failed next => stepsLeft failed + stepsLeft next + 1
  | .call failed next => stepsLeft failed + stepsLeft next + 1
  | .execvp failed image => stepsLeft failed + stepsLeft image + 1
  | .write _ text next => 2 * text.length + stepsLeft next + 1
  | .fork child next => stepsLeft child + stepsLeft next + 1

/-- The steps left to some processes. -/
def sizes (ps : List Process) : Nat := (ps.map fun p => stepsLeft p.todo).sum

/-- The steps of two groups add up. -/
theorem sizes_append (ps qs : List Process) : sizes (ps ++ qs) = sizes ps + sizes qs := by
  unfold sizes
  rw [List.map_append, List.sum_append]

/-- The steps of the first process, and those of the others. -/
theorem sizes_cons (p : Process) (ps : List Process) :
    sizes (p :: ps) = stepsLeft p.todo + sizes ps := rfl

/-- Without processes there are no steps. -/
theorem sizes_nil : sizes [] = 0 := rfl

/-- Each step of a process leaves less to do. -/
theorem size_acts (h : Acts room reader p e) :
    e.wrote.length + sizes e.started + sizes (remaining e.outcome) < stepsLeft p.todo := by
  have hgoes {q : Process} (hlt : stepsLeft q.todo < stepsLeft p.todo) :
      q.goesOn.wrote.length + sizes q.goesOn.started + sizes (remaining q.goesOn.outcome)
        < stepsLeft p.todo := by
    simpa [Process.goesOn, remaining, sizes] using hlt
  cases h with
  | exited htodo => simp [remaining, sizes, htodo, stepsLeft]
  | dup2 htodo hold => exact hgoes (by simp only [htodo, stepsLeft]; omega)
  | dup2Failed htodo => exact hgoes (by simp only [htodo, stepsLeft]; omega)
  | closed htodo hfd => exact hgoes (by simp only [htodo, stepsLeft]; omega)
  | closeFailed htodo => exact hgoes (by simp only [htodo, stepsLeft]; omega)
  | called htodo => exact hgoes (by simp only [htodo, stepsLeft]; omega)
  | callFailed htodo => exact hgoes (by simp only [htodo, stepsLeft]; omega)
  | executed htodo => exact hgoes (by simp only [htodo, stepsLeft]; omega)
  | execvpFailed htodo => exact hgoes (by simp only [htodo, stepsLeft]; omega)
  | wrote htodo hfd hreader hpos hle hroom =>
    simp [remaining, sizes, htodo, stepsLeft]
    omega
  | wroteAll htodo => exact hgoes (by simp [htodo, stepsLeft])
  | wroteElsewhere htodo hfd => exact hgoes (by simp only [htodo, stepsLeft]; omega)
  | killed htodo hfd hreader htext => simp [remaining, sizes, htodo, stepsLeft]
  | forked htodo => simp [remaining, sizes, htodo, stepsLeft]

/-- A process is stuck only when it has to wait for room. -/
theorem acts_of_room (reader : Prop) (p : Process) (hroom : 0 < room) :
    ∃ e, Acts room reader p e := by
  cases htodo : p.todo with
  | exit ws => exact ⟨_, .exited htodo⟩
  | dup2 old new failed next => exact ⟨_, .dup2Failed htodo⟩
  | close fd failed next => exact ⟨_, .closeFailed htodo⟩
  | call failed next => exact ⟨_, .called htodo⟩
  | execvp failed image => exact ⟨_, .executed htodo⟩
  | fork child next => exact ⟨_, .forked htodo⟩
  | write fd text next =>
    by_cases hfd : p.fds fd = some .writeEnd
    · by_cases hreader : reader
      · cases text with
        | nil => exact ⟨_, .wroteAll htodo⟩
        | cons c text => exact ⟨_, .wrote htodo hfd hreader Nat.one_pos (by simp) hroom⟩
      · cases text with
        | nil => exact ⟨_, .wroteAll htodo⟩
        | cons c text => exact ⟨_, .killed htodo hfd hreader nofun⟩
    · exact ⟨_, .wroteElsewhere htodo hfd⟩

end

/-! ### The other processes -/

/-- A process that remains is the one that goes on. -/
theorem outcome_of_mem_remaining {outcome : Except Int Process} {p : Process}
    (hp : p ∈ remaining outcome) : outcome = .ok p := by
  cases outcome with
  | ok p' => rw [List.mem_singleton.mp hp]
  | error ws => cases hp

/-- What the parent sees of a step of another process. -/
structure Elsewhere (s s' : Subprocess) : Prop where
  point : s'.point = s.point
  fds : s'.fds = s.fds
  output : s'.output = s.output
  reads : s'.reads = s.reads
  waits : s'.waits = s.waits
  interrupts : s'.interrupts = s.interrupts
  ended : ∀ ws, s.child = .error ws → s'.child = .error ws
  held : ∀ o, s'.Held o → s.Held o
  pipe : ∃ wrote, s'.pipe = s.pipe ++ wrote ∧ s'.written = s.written ++ wrote ∧
    (wrote ≠ [] → s.Held .writeEnd)

section
variable {f : Forked} {s s' : Subprocess}

/-- A step of the child is none of the parent. -/
theorem elsewhere_child (h : Subprocess.Step f s .child s') : Elsewhere s s' := by
  cases h with
  | @child p e hchild hacts =>
    have hheld {o : Object} (hp : p.fds.Holds o) : s.Held o := .inr (.inl ⟨p, hchild, hp⟩)
    refine ⟨rfl, rfl, rfl, rfl, rfl, rfl, ?_, ?_, e.wrote, rfl, rfl, ?_⟩
    · intro ws hws
      rw [hchild] at hws
      cases hws
    · rintro o (hparent | ⟨q, hq, hholds⟩ | ⟨q, hq, hholds⟩)
      · exact .inl hparent
      · exact hheld (holds_acts hacts (.inl ⟨q, hq, hholds⟩))
      · rcases List.mem_append.mp hq with hq | hq
        · exact .inr (.inr ⟨q, hq, hholds⟩)
        · exact hheld (holds_acts hacts (.inr ⟨q, hq, hholds⟩))
    · intro hwrote
      by_contra hnot
      exact hwrote (wrote_acts hacts fun hp => hnot (hheld hp))

/-- Neither is a step of another process. -/
theorem elsewhere_other (h : Subprocess.Step f s .other s') : Elsewhere s s' := by
  cases h with
  | @other before after p e hothers hacts =>
    have hheld {o : Object} (hp : p.fds.Holds o) : s.Held o :=
      .inr (.inr ⟨p, by simp [hothers], hp⟩)
    refine ⟨rfl, rfl, rfl, rfl, rfl, rfl, fun _ => id, ?_, e.wrote, rfl, rfl, ?_⟩
    · rintro o (hparent | hchild | ⟨q, hq, hholds⟩)
      · exact .inl hparent
      · exact .inr (.inl hchild)
      · simp only [List.mem_append] at hq
        obtain ((hq | hq) | hq) | hq := hq
        · exact .inr (.inr ⟨q, by simp [hothers, hq], hholds⟩)
        · exact hheld (holds_acts hacts (.inl ⟨q, outcome_of_mem_remaining hq, hholds⟩))
        · exact .inr (.inr ⟨q, by simp [hothers, hq], hholds⟩)
        · exact hheld (holds_acts hacts (.inr ⟨q, hq, hholds⟩))
    · intro hwrote
      by_contra hnot
      exact hwrote (wrote_acts hacts fun hp => hnot (hheld hp))

end

/-! ### The parent -/

/-- Everything was read, and nothing can be written any more. -/
structure Emptied (s : Subprocess) : Prop where
  pipe : s.pipe = []
  unheld : ¬ s.Held .writeEnd
  drained : ∃ reads, s.reads = reads ++ [.ok []] ∧ ∀ result ∈ reads, readsOn result = true

/-- What the parent relies on at each point. -/
def Phase (f : Forked) (s : Subprocess) : Prop :=
  match s.point with
  | .forked => f.p0 ≠ f.p1 ∧ s.fds f.p0 = some .readEnd ∧
      (∀ fd, s.fds fd = some .writeEnd → fd = f.p1) ∧ s.reads = [] ∧ s.waits = []
  | .capturing => s.fds f.p0 = some .readEnd ∧ ¬ s.fds.Holds .writeEnd ∧
      (∀ result ∈ s.reads, readsOn result = true) ∧ s.waits = []
  | .captured => Emptied s ∧ s.waits = []
  | .waiting => Emptied s ∧ ∀ result ∈ s.waits, waitsOn f.pid.val result = true
  | .returned ws => Emptied s ∧ s.child = .error ws ∧
      ∃ waits, s.waits = waits ++ [.ok (f.pid.val, ws)] ∧
        ∀ result ∈ waits, waitsOn f.pid.val result = true

/-- The invariant. -/
structure Flows (f : Forked) (s : Subprocess) : Prop where
  written : s.written = s.output ++ s.pipe
  output : captured s.reads = s.output
  phase : Phase f s

/-- One more answer of `read`. -/
theorem captured_append (reads : List (Except Errno Bytes)) (result : Except Errno Bytes) :
    captured (reads ++ [result]) = captured reads ++ result.toOption.getD [] := by
  simp [captured]

section
variable {f : Forked} {s s' : Subprocess}

/-- It stays so when nobody gets the write end. -/
theorem Emptied.keep (h : Emptied s) (hpipe : s'.pipe = s.pipe) (hreads : s'.reads = s.reads)
    (hheld : s'.Held .writeEnd → s.Held .writeEnd) : Emptied s' where
  pipe := hpipe.trans h.pipe
  unheld hs' := h.unheld (hheld hs')
  drained := hreads ▸ h.drained

/-- A pipe that was found empty at its end stays so. -/
theorem Emptied.elsewhere (h : Emptied s) (hs : Elsewhere s s') : Emptied s' := by
  obtain ⟨wrote, hpipe, -, hwrote⟩ := hs.pipe
  have hnil : wrote = [] := by
    by_contra hne
    exact h.unheld (hwrote hne)
  rw [hnil, List.append_nil] at hpipe
  exact h.keep hpipe hs.reads (hs.held _)

/-- What the parent does next is not changed by the others. -/
theorem Phase.elsewhere (h : Phase f s) (hs : Elsewhere s s') : Phase f s' := by
  unfold Phase at h ⊢
  rw [hs.point, hs.fds, hs.reads, hs.waits]
  split at h
  · exact h
  · exact h
  · exact ⟨h.1.elsewhere hs, h.2⟩
  · exact ⟨h.1.elsewhere hs, h.2⟩
  · exact ⟨h.1.elsewhere hs, hs.ended _ h.2.1, h.2.2⟩

/-- Nor do they change what flows through the pipe, except at its end. -/
theorem Flows.elsewhere (h : Flows f s) (hs : Elsewhere s s') : Flows f s' := by
  obtain ⟨wrote, hpipe, hwritten, -⟩ := hs.pipe
  refine ⟨?_, ?_, h.phase.elsewhere hs⟩
  · rw [hwritten, hs.output, hpipe, h.written, List.append_assoc]
  · rw [hs.reads, hs.output]
    exact h.output

/-- A property of all elements and of one more. -/
theorem mem_append_singleton {α : Type} {p : α → Prop} {xs : List α} {x : α}
    (hxs : ∀ y ∈ xs, p y) (hx : p x) : ∀ y ∈ xs ++ [x], p y := by
  intro y hy
  rcases List.mem_append.mp hy with hy | hy
  · exact hxs y hy
  · rw [List.mem_singleton.mp hy]
    exact hx

/-- **One step of the parent.** -/
theorem Flows.parent (h : Flows f s) (hstep : Subprocess.Step f s .parent s') : Flows f s' := by
  have hphase := h.phase
  unfold Phase at hphase
  cases hstep with
  | closedP1 hpoint =>
    rw [hpoint] at hphase
    obtain ⟨hne, hread, hwrite, hreads, hwaits⟩ := hphase
    refine ⟨h.written, h.output, ?_, ?_, by simp [hreads], hwaits⟩
    · show Function.update s.fds f.p1 none f.p0 = _
      rw [Function.update_of_ne hne]
      exact hread
    · rintro ⟨fd, hfd⟩
      replace hfd : Function.update s.fds f.p1 none fd = some .writeEnd := hfd
      by_cases heq : fd = f.p1
      · rw [heq, Function.update_self] at hfd
        cases hfd
      · rw [Function.update_of_ne heq] at hfd
        exact heq (hwrite fd hfd)
  | @read n hpoint hpos hle hsize =>
    rw [hpoint] at hphase
    obtain ⟨hread, hwrite, hreads, hwaits⟩ := hphase
    have htake : s.pipe.take n ≠ [] := by
      intro hnil
      have hlen := congrArg List.length hnil
      rw [List.length_take, List.length_nil] at hlen
      omega
    refine ⟨?_, ?_, ?_⟩
    · show s.written = s.output ++ s.pipe.take n ++ s.pipe.drop n
      rw [List.append_assoc, List.take_append_drop]
      exact h.written
    · show captured (s.reads ++ [.ok (s.pipe.take n)]) = s.output ++ s.pipe.take n
      rw [captured_append, h.output]
      rfl
    · show Phase f { s with output := _, pipe := _, reads := _ }
      unfold Phase
      dsimp only
      rw [hpoint]
      exact ⟨hread, hwrite, mem_append_singleton hreads (by simpa [readsOn] using htake), hwaits⟩
  | readEnd hpoint hpipe hwriter =>
    rw [hpoint] at hphase
    obtain ⟨-, -, hreads, hwaits⟩ := hphase
    refine ⟨h.written, ?_, ⟨hpipe, hwriter, _, rfl, hreads⟩, hwaits⟩
    show captured (s.reads ++ [.ok []]) = s.output
    rw [captured_append, h.output]
    exact List.append_nil _
  | @readInterrupted n hpoint hinterrupts =>
    rw [hpoint] at hphase
    obtain ⟨hread, hwrite, hreads, hwaits⟩ := hphase
    refine ⟨h.written, ?_, ?_⟩
    · show captured (s.reads ++ [.error .EINTR]) = s.output
      rw [captured_append, h.output]
      exact List.append_nil _
    · show Phase f { s with interrupts := _, reads := _ }
      unfold Phase
      dsimp only
      rw [hpoint]
      exact ⟨hread, hwrite, mem_append_singleton hreads rfl, hwaits⟩
  | closedP0 hpoint =>
    rw [hpoint] at hphase
    refine ⟨h.written, h.output, hphase.1.keep rfl rfl ?_, by simp [hphase.2]⟩
    rintro (hparent | hothers)
    · exact .inl (holds_close hparent)
    · exact .inr hothers
  | reaped hpoint hchild =>
    rw [hpoint] at hphase
    exact ⟨h.written, h.output, hphase.1.keep rfl rfl id, hchild, _, rfl, hphase.2⟩
  | @waitInterrupted n hpoint hinterrupts =>
    rw [hpoint] at hphase
    refine ⟨h.written, h.output, ?_⟩
    show Phase f { s with interrupts := _, waits := _ }
    unfold Phase
    dsimp only
    rw [hpoint]
    exact ⟨hphase.1.keep rfl rfl id, mem_append_singleton hphase.2 rfl⟩

/-- **One step**, of whichever process. -/
theorem Flows.step {a : Actor} (h : Flows f s) (hstep : Subprocess.Step f s a s') : Flows f s' := by
  cases a with
  | parent => exact h.parent hstep
  | child => exact h.elsewhere (elsewhere_child hstep)
  | other => exact h.elsewhere (elsewhere_other hstep)

end

section
variable [Libc] {f : Forked} {s : Subprocess}

/-- The pipe has two ends. -/
theorem p0_ne_p1 (h : Subprocess.Started f s) : f.p0 ≠ f.p1 := by
  intro heq
  have hread := (h.readEnd f.p0).mpr rfl
  rw [(h.writeEnd f.p0).mpr heq] at hread
  cases hread

/-- At the start, nothing was written or read. -/
theorem flows_of_started (h : Subprocess.Started f s) : Flows f s := by
  refine ⟨?_, ?_, ?_⟩
  · rw [h.written, h.output, h.pipe]
    rfl
  · rw [h.reads, h.output]
    rfl
  · unfold Phase
    rw [h.point]
    exact ⟨p0_ne_p1 h, (h.readEnd _).mpr rfl, fun fd => (h.writeEnd fd).mp, h.reads, h.waits⟩

/-- **In every state** that is reached. -/
theorem flows_of_reachable (h : Reachable (Subprocess.Started f) (Subprocess.Step f) s) :
    Flows f s :=
  h.invariant (fun _ => flows_of_started) fun _ _ _ => Flows.step

end

/-! ### When `execute` returns -/

section
variable {f : Forked} {s : Subprocess}

end

section
variable [Libc] {f : Forked} {s : Subprocess}

/-- **No writer is killed.** As long as a process can write, the parent can read. -/
theorem reader_of_writer (h : Reachable (Subprocess.Started f) (Subprocess.Step f) s)
    (hheld : s.Held .writeEnd) :
    s.fds f.p0 = some .readEnd := by
  have hphase := (flows_of_reachable h).phase
  unfold Phase at hphase
  split at hphase
  · exact hphase.2.1
  · exact hphase.1
  · exact absurd hheld hphase.1.unheld
  · exact absurd hheld hphase.1.unheld
  · exact absurd hheld hphase.1.unheld

end

/-- The command leaves a process behind, which writes after the command has failed. -/
def lateWriter : Forked where
  argv0 := lit "x"
  command := .fork (.write 2 (lit "b") (.exit 0)) (.exit 256)
  p0 := 3
  p1 := 4
  capacity := 1
  pid := ⟨7, Nat.succ_pos 6⟩
  maskErrno := .EINVAL
  execErrno := .ENOENT

/-- The descriptors of the pipe, and no others. -/
def pipeOnly : Descriptors := fun fd =>
  if fd = 3 then some .readEnd else if fd = 4 then some .writeEnd else none

/-- The `fork` has returned. -/
def lateForked : Subprocess :=
  letI := Libc.noMatch
  { point := .forked, fds := pipeOnly, output := [], reads := [], waits := [], interrupts := 0,
    child := .ok ⟨pipeOnly, none, lateWriter.child⟩, others := [], pipe := [], written := [] }

/-- A start with a child that leaves a descendant behind. -/
theorem started_lateForked : letI := Libc.noMatch; Subprocess.Started lateWriter lateForked := by
  let _ := Libc.noMatch
  refine ⟨rfl, fun fd => ?_, fun fd => ?_, rfl, rfl, rfl, rfl, rfl, rfl, rfl⟩
  · show pipeOnly fd = some .readEnd ↔ fd = 3
    unfold pipeOnly
    split
    · simp [*]
    · split <;> simp [*]
  · show pipeOnly fd = some .writeEnd ↔ fd = 4
    unfold pipeOnly
    split
    · simp [*]
    · split <;> simp [*]

/-- The command runs. -/
def lateRuns : Subprocess :=
  let fds := (((pipeOnly.dup2 .writeEnd 1).dup2 .writeEnd 2).close 4).close 3
  { lateForked with
    point := .capturing, fds := pipeOnly.close 4,
    child := .ok ⟨fds, some fds, lateWriter.command⟩ }

/-- The child has started. -/
theorem reachable_lateRuns :
    letI := Libc.noMatch
    Reachable (Subprocess.Started lateWriter) (Subprocess.Step lateWriter) lateRuns := by
  let _ := Libc.noMatch
  have h0 : Reachable (Subprocess.Started lateWriter) (Subprocess.Step lateWriter) lateForked :=
    .start started_lateForked
  have h1 := Reachable.next _ h0 (.closedP1 rfl)
  have h2 := Reachable.next _ h1 (.child rfl (.dup2 rfl rfl))
  have h3 := Reachable.next _ h2 (.child rfl (.dup2 rfl rfl))
  have h4 := Reachable.next _ h3 (.child rfl (.closed rfl nofun))
  have h5 := Reachable.next _ h4 (.child rfl (.closed rfl nofun))
  have h6 := Reachable.next _ h5 (.child rfl (.called rfl))
  have h7 := Reachable.next _ h6 (.child rfl (.executed rfl))
  exact h7

section
variable {f : Forked} {s : Subprocess}

/-- A bound for the steps that are left. -/
def stepsToReturn (s : Subprocess) : Nat :=
  let point := match s.point with
    | .forked => 4
    | .capturing => 3
    | .captured => 2
    | .waiting => 1
    | .returned _ => 0
  point + s.interrupts + s.pipe.length + sizes (remaining s.child) + sizes s.others

/-- **Every step** brings the return nearer. -/
theorem stepsToReturn_lt {s' : Subprocess} {a : Actor} (h : Subprocess.Step f s a s') :
    stepsToReturn s' < stepsToReturn s := by
  unfold stepsToReturn
  cases h with
  | closedP1 hpoint => simp [hpoint]
  | read hpoint hpos hle hsize =>
    simp only [hpoint, List.length_drop]
    omega
  | readEnd hpoint hpipe hwriter => simp [hpoint]
  | readInterrupted hpoint hinterrupts =>
    simp only [hpoint, hinterrupts]
    omega
  | closedP0 hpoint => simp [hpoint]
  | reaped hpoint hchild => simp [hpoint]
  | waitInterrupted hpoint hinterrupts =>
    simp only [hpoint, hinterrupts]
    omega
  | child hchild hacts =>
    have hlt := size_acts hacts
    simp only [apply, hchild, remaining, sizes_append, sizes_cons, sizes_nil, List.length_append]
      at hlt ⊢
    omega
  | other hothers hacts =>
    have hlt := size_acts hacts
    simp only [apply, hothers, sizes_append, sizes_cons, List.length_append] at hlt ⊢
    omega

/-- Until it returns, somebody can go on. -/
theorem step_of_flows (h : Flows f s) (hcapacity : 0 < f.capacity) :
    (∃ ws, s.point = .returned ws) ∨ ∃ a s', Subprocess.Step f s a s' := by
  have hphase := h.phase
  unfold Phase at hphase
  have hroom (hpipe : s.pipe = []) : 0 < f.capacity - s.pipe.length := by
    rw [hpipe]
    exact hcapacity
  cases hpoint : s.point with
  | forked => exact .inr ⟨_, _, .closedP1 hpoint⟩
  | capturing =>
    rw [hpoint] at hphase
    cases hpipe : s.pipe with
    | cons c rest =>
      exact .inr ⟨_, _, .read hpoint Nat.one_pos (by simp [hpipe]) (by decide)⟩
    | nil =>
      by_cases hheld : s.Held .writeEnd
      -- A writer that does not end has room.
      · rcases hheld with hparent | ⟨p, hchild, -⟩ | ⟨p, hp, -⟩
        · exact absurd hparent hphase.2.1
        · obtain ⟨e, hacts⟩ := acts_of_room (s.Held .readEnd) p (hroom hpipe)
          exact .inr ⟨_, _, .child hchild hacts⟩
        · obtain ⟨before, after, hothers⟩ := List.append_of_mem hp
          obtain ⟨e, hacts⟩ := acts_of_room (s.Held .readEnd) p (hroom hpipe)
          exact .inr ⟨_, _, .other hothers hacts⟩
      · exact .inr ⟨_, _, .readEnd hpoint hpipe hheld⟩
  | captured => exact .inr ⟨_, _, .closedP0 hpoint⟩
  | waiting =>
    rw [hpoint] at hphase
    cases hchild : s.child with
    | error ws => exact .inr ⟨_, _, .reaped hpoint hchild⟩
    | ok p =>
      obtain ⟨e, hacts⟩ := acts_of_room (s.Held .readEnd) p (hroom hphase.1.pipe)
      exact .inr ⟨_, _, .child hchild hacts⟩
  | returned ws => exact .inl ⟨ws, rfl⟩

end

/-- **`execute` returns**, in whatever order the processes and the parent go on: the output cannot
block the command, and the end of the output cannot be missing. -/
theorem execute_ends [Libc] {f : Forked} {s : Subprocess} (hcapacity : 0 < f.capacity)
    (h : Reachable (Subprocess.Started f) (Subprocess.Step f) s) :
    Inevitably (fun s s' => ∃ a, Subprocess.Step f s a s')
      (fun s => ∃ ws, s.point = .returned ws ∧ s.child = .error ws ∧ s.output = s.written) s := by
  refine inevitably_of_measure (Flows f) stepsToReturn ?_ ?_ (flows_of_reachable h)
  · intro s hs
    rcases step_of_flows hs hcapacity with ⟨ws, hpoint⟩ | ⟨a, s', hstep⟩
    · have hphase := hs.phase
      unfold Phase at hphase
      rw [hpoint] at hphase
      refine .inl ⟨ws, hpoint, hphase.2.1, ?_⟩
      rw [hs.written, hphase.1.pipe, List.append_nil]
    · exact .inr ⟨s', a, hstep⟩
  · rintro s s' hs - ⟨a, hstep⟩
    exact .inr ⟨hs.step hstep, stepsToReturn_lt hstep⟩

/-- And it does return. -/
theorem execute_ends_lateWriter :
    Inevitably (fun s s' => ∃ a, Subprocess.Step lateWriter s a s')
      (fun s => ∃ ws, s.point = .returned ws ∧ s.child = .error ws ∧ s.output = s.written)
      lateRuns :=
  @execute_ends Libc.noMatch _ _ (by decide) reachable_lateRuns

/-! ### The descriptors of the command -/

/-- Which descriptors are the ends of the pipe. -/
structure Plumbing (t : Descriptors) (readEnds writeEnds : List Nat) : Prop where
  readEnd : ∀ fd, t fd = some .readEnd ↔ fd ∈ readEnds
  writeEnd : ∀ fd, t fd = some .writeEnd ↔ fd ∈ writeEnds

section
variable {t : Descriptors} {rs ws : List Nat}

/-- A duplicate of the write end is one more write end. -/
theorem Plumbing.dup2 (h : Plumbing t rs ws) {new : Nat} (hnew : new ∉ rs) :
    Plumbing (t.dup2 .writeEnd new) rs (new :: ws) := by
  unfold Descriptors.dup2
  refine ⟨fun fd => ?_, fun fd => ?_⟩
  · by_cases heq : fd = new
    · simp [heq, hnew]
    · rw [Function.update_of_ne heq]
      exact h.readEnd fd
  · by_cases heq : fd = new
    · simp [heq]
    · rw [Function.update_of_ne heq, h.writeEnd]
      simp [heq]

/-- A closed descriptor is no end any more. -/
theorem Plumbing.close (h : Plumbing t rs ws) (fd : Nat) :
    Plumbing (t.close fd) (rs.filter (· ≠ fd)) (ws.filter (· ≠ fd)) := by
  unfold Descriptors.close
  refine ⟨fun fd' => ?_, fun fd' => ?_⟩
  · by_cases heq : fd' = fd
    · simp [heq]
    · simp [heq, h.readEnd]
  · by_cases heq : fd' = fd
    · simp [heq]
    · simp [heq, h.writeEnd]

end

/-- Standard output and standard error are the pipe, and no other descriptor is. -/
def Plumbed (t : Descriptors) : Prop := Plumbing t [] [2, 1]

/-- What a process can do next, by what it has to do. -/
def Next (p : Process) (e : Effect) : Behaviour → Prop
  | .exit ws => e = ⟨[], [], .error ws⟩
  | .dup2 old new failed next => e = { p with todo := failed }.goesOn ∨
      ∃ o, p.fds old = some o ∧ e = { p with fds := p.fds.dup2 o new, todo := next }.goesOn
  | .close fd failed next => e = { p with todo := failed }.goesOn ∨
      e = { p with fds := p.fds.close fd, todo := next }.goesOn
  | .call failed next => e = { p with todo := failed }.goesOn ∨ e = { p with todo := next }.goesOn
  | .execvp failed image => e = { p with todo := failed }.goesOn ∨
      e = { p with image := p.image.or (some p.fds), todo := image }.goesOn
  | .write fd _ next => e.started = [] ∧
      ∀ p', e.outcome = .ok p' → p'.image = p.image ∧
        (p'.todo = next ∨ ∃ more, p'.todo = .write fd more next)
  | .fork child next =>
      e = ⟨[], [⟨p.fds, p.image, child⟩], .ok { p with todo := next }⟩

section
variable {room : Nat} {reader : Prop} {p : Process} {e : Effect}

/-- A process that acts is at the head of what it has to do. -/
theorem next_acts (h : Acts room reader p e) : Next p e p.todo := by
  cases h with
  | exited htodo => rw [htodo]; rfl
  | dup2 htodo hold => rw [htodo]; exact .inr ⟨_, hold, rfl⟩
  | dup2Failed htodo => rw [htodo]; exact .inl rfl
  | closed htodo hfd => rw [htodo]; exact .inr rfl
  | closeFailed htodo => rw [htodo]; exact .inl rfl
  | called htodo => rw [htodo]; exact .inr rfl
  | callFailed htodo => rw [htodo]; exact .inl rfl
  | executed htodo => rw [htodo]; exact .inr rfl
  | execvpFailed htodo => rw [htodo]; exact .inl rfl
  | wrote htodo hfd hreader hpos hle hroom =>
    rw [htodo]
    refine ⟨rfl, ?_⟩
    rintro p' ⟨⟩
    exact ⟨rfl, .inr ⟨_, rfl⟩⟩
  | wroteAll htodo =>
    rw [htodo]
    refine ⟨rfl, ?_⟩
    rintro p' ⟨⟩
    exact ⟨rfl, .inl rfl⟩
  | wroteElsewhere htodo hfd =>
    rw [htodo]
    refine ⟨rfl, ?_⟩
    rintro p' ⟨⟩
    exact ⟨rfl, .inl rfl⟩
  | killed htodo hfd hreader htext =>
    rw [htodo]
    refine ⟨rfl, ?_⟩
    rintro p' ⟨⟩
  | forked htodo => rw [htodo]; rfl

/-- The processes after the step have the image of the process before it. -/
theorem image_acts (h : Acts room reader p e) {t : Descriptors} (hp : p.image = some t) :
    (∀ p', e.outcome = .ok p' → p'.image = some t) ∧ ∀ p' ∈ e.started, p'.image = some t := by
  have hgoes {q : Process} (hq : q.image = some t) :
      (∀ p', q.goesOn.outcome = .ok p' → p'.image = some t) ∧
        ∀ p' ∈ q.goesOn.started, p'.image = some t := by
    refine ⟨?_, nofun⟩
    rintro p' ⟨⟩
    exact hq
  have hnext := next_acts h
  cases htodo : p.todo with
  | exit ws =>
    rw [htodo] at hnext
    obtain rfl := hnext
    exact ⟨nofun, nofun⟩
  | dup2 old new failed next =>
    rw [htodo] at hnext
    obtain rfl | ⟨o, -, rfl⟩ := hnext
    · exact hgoes hp
    · exact hgoes hp
  | close fd failed next =>
    rw [htodo] at hnext
    obtain rfl | rfl := hnext
    · exact hgoes hp
    · exact hgoes hp
  | call failed next =>
    rw [htodo] at hnext
    obtain rfl | rfl := hnext
    · exact hgoes hp
    · exact hgoes hp
  | execvp failed image =>
    rw [htodo] at hnext
    obtain rfl | rfl := hnext
    · exact hgoes hp
    · exact hgoes (by simp [hp])
  | write fd text next =>
    rw [htodo] at hnext
    obtain ⟨hstarted, houtcome⟩ := hnext
    refine ⟨fun p' hp' => (houtcome p' hp').1.trans hp, ?_⟩
    rw [hstarted]
    exact nofun
  | fork child next =>
    rw [htodo] at hnext
    obtain rfl := hnext
    refine ⟨?_, ?_⟩
    · rintro p' ⟨⟩
      exact hp
    · intro p' hp'
      rw [List.mem_singleton.mp hp']
      exact hp

end

section
variable [Libc]

/-- The child on its way to the command. -/
inductive OnItsWay (f : Forked) : Descriptors → Behaviour → Prop where
  | child {t : Descriptors} (h : Plumbing t [f.p0] [f.p1]) : OnItsWay f t f.child
  | dupErr {t : Descriptors} (h : Plumbing t [f.p0] [1, f.p1]) : OnItsWay f t f.dupErr
  | closeP1 {t : Descriptors} (h : Plumbing t [f.p0] [2, 1, f.p1]) : OnItsWay f t f.closeP1
  | closeP0 {t : Descriptors} (h : Plumbing t [f.p0] [2, 1]) : OnItsWay f t f.closeP0
  | restoreMask {t : Descriptors} (h : Plumbed t) : OnItsWay f t f.restoreMask
  | execProgram {t : Descriptors} (h : Plumbed t) : OnItsWay f t f.execProgram
  | complains {t : Descriptors} (text : Bytes) :
      OnItsWay f t (.write 2 text Forked.exitFailed)
  | fails {t : Descriptors} : OnItsWay f t Forked.exitFailed

/-- A process of the command was executed with plumbed descriptors, and the child comes there. -/
def OnTrack (f : Forked) (p : Process) : Prop :=
  match p.image with
  | some t => Plumbed t
  | none => OnItsWay f p.fds p.todo

variable {f : Forked} {room : Nat} {reader : Prop} {p : Process} {e : Effect}

/-- One step of the child before the command. -/
theorem onItsWay_acts (hne : f.p0 ≠ f.p1) (hp0 : f.p0 ≠ 1 ∧ f.p0 ≠ 2) (hp1 : f.p1 ≠ 1 ∧ f.p1 ≠ 2)
    (h : Acts room reader p e) (himage : p.image = none) (hp : OnItsWay f p.fds p.todo) :
    (∀ p', e.outcome = .ok p' → OnTrack f p') ∧ e.started = [] := by
  have hgoes {q : Process} (hq : OnTrack f q) :
      (∀ p', q.goesOn.outcome = .ok p' → OnTrack f p') ∧ q.goesOn.started = [] := by
    refine ⟨?_, rfl⟩
    rintro p' ⟨⟩
    exact hq
  have hway {t : Descriptors} {todo : Behaviour} (hq : OnItsWay f t todo) :
      OnTrack f ⟨t, p.image, todo⟩ := by
    unfold OnTrack
    rw [himage]
    exact hq
  have hnext := next_acts h
  generalize hfds : p.fds = t at hp
  generalize htodo : p.todo = todo at hp hnext
  cases hp with
  | child ht =>
    obtain rfl | ⟨o, hold, rfl⟩ := hnext
    · exact hgoes (hway .fails)
    · rw [hfds, (ht.writeEnd _).mpr (List.mem_singleton_self _)] at hold
      cases hold
      rw [hfds]
      exact hgoes (hway (.dupErr (ht.dup2 (by simpa using hp0.1.symm))))
  | dupErr ht =>
    obtain rfl | ⟨o, hold, rfl⟩ := hnext
    · exact hgoes (hway .fails)
    · rw [hfds, (ht.writeEnd _).mpr (by simp)] at hold
      cases hold
      rw [hfds]
      exact hgoes (hway (.closeP1 (ht.dup2 (by simpa using hp0.2.symm))))
  | closeP1 ht =>
    obtain rfl | rfl := hnext
    · exact hgoes (hway .fails)
    · have hclose := ht.close f.p1
      rw [List.filter_cons_of_pos (by simpa using hne)] at hclose
      rw [hfds]
      exact hgoes (hway (.closeP0 (by simpa [hp1.1.symm, hp1.2.symm] using hclose)))
  | closeP0 ht =>
    obtain rfl | rfl := hnext
    · exact hgoes (hway .fails)
    · have hclose := ht.close f.p0
      rw [hfds]
      exact hgoes (hway (.restoreMask (by simpa [Plumbed, hp0.1.symm, hp0.2.symm] using hclose)))
  | restoreMask ht =>
    obtain rfl | rfl := hnext
    · exact hgoes (hway (.complains _))
    · exact hgoes (hway (.execProgram (hfds ▸ ht)))
  | execProgram ht =>
    obtain rfl | rfl := hnext
    · exact hgoes (hway (.complains _))
    · refine hgoes ?_
      unfold OnTrack
      rw [himage, hfds]
      exact ht
  | complains text =>
    obtain ⟨hstarted, houtcome⟩ := hnext
    refine ⟨fun p' hp' => ?_, hstarted⟩
    obtain ⟨himage', htodo'⟩ := houtcome p' hp'
    unfold OnTrack
    rw [himage', himage]
    rcases htodo' with htodo' | ⟨more, htodo'⟩
    · rw [htodo']
      exact .fails
    · rw [htodo']
      exact .complains more
  | fails =>
    obtain rfl := hnext
    exact ⟨nofun, rfl⟩

/-- One step of a process on its way, or of the command. -/
theorem onTrack_acts (hne : f.p0 ≠ f.p1) (hp0 : f.p0 ≠ 1 ∧ f.p0 ≠ 2) (hp1 : f.p1 ≠ 1 ∧ f.p1 ≠ 2)
    (h : Acts room reader p e) (hp : OnTrack f p) :
    (∀ p', e.outcome = .ok p' → OnTrack f p') ∧ ∀ p' ∈ e.started, OnTrack f p' := by
  unfold OnTrack at hp
  cases himage : p.image with
  | none =>
    rw [himage] at hp
    obtain ⟨houtcome, hstarted⟩ := onItsWay_acts hne hp0 hp1 h himage hp
    rw [hstarted]
    exact ⟨houtcome, nofun⟩
  | some t =>
    rw [himage] at hp
    obtain ⟨houtcome, hstarted⟩ := image_acts h himage
    unfold OnTrack
    refine ⟨fun p' hp' => ?_, fun p' hp' => ?_⟩
    · rw [houtcome p' hp']
      exact hp
    · rw [hstarted p' hp']
      exact hp

variable {s : Subprocess}

/-- The processes of the system. -/
def IsProcess (s : Subprocess) (p : Process) : Prop := s.child = .ok p ∨ p ∈ s.others

/-- **One step** keeps every process on its track. -/
theorem onTrack_step {s' : Subprocess} {a : Actor} (hne : f.p0 ≠ f.p1)
    (hp0 : f.p0 ≠ 1 ∧ f.p0 ≠ 2) (hp1 : f.p1 ≠ 1 ∧ f.p1 ≠ 2)
    (hs : ∀ p, IsProcess s p → OnTrack f p) (h : Subprocess.Step f s a s') :
    ∀ p, IsProcess s' p → OnTrack f p := by
  cases h with
  | child hchild hacts =>
    obtain ⟨houtcome, hstarted⟩ := onTrack_acts hne hp0 hp1 hacts (hs _ (.inl hchild))
    rintro q (hq | hq)
    · exact houtcome q hq
    · rcases List.mem_append.mp hq with hq | hq
      · exact hs q (.inr hq)
      · exact hstarted q hq
  | @other before after p e hothers hacts =>
    obtain ⟨houtcome, hstarted⟩ := onTrack_acts hne hp0 hp1 hacts (hs p (.inr (by simp [hothers])))
    rintro q (hq | hq)
    · exact hs q (.inl hq)
    · simp only [List.mem_append] at hq
      obtain ((hq | hq) | hq) | hq := hq
      · exact hs q (.inr (by simp [hothers, hq]))
      · exact houtcome q (outcome_of_mem_remaining hq)
      · exact hs q (.inr (by simp [hothers, hq]))
      · exact hstarted q hq
  | _ => exact hs

/-- **The descriptors of the command.** Every process of it was executed with the pipe as its
standard output and error, and with no other descriptor of the pipe. -/
theorem image_plumbed (hp0 : f.p0 ≠ 1 ∧ f.p0 ≠ 2) (hp1 : f.p1 ≠ 1 ∧ f.p1 ≠ 2)
    (h : Reachable (Subprocess.Started f) (Subprocess.Step f) s) {p : Process} (hp : IsProcess s p)
    {t : Descriptors} (himage : p.image = some t) : Plumbed t := by
  let inv (s : Subprocess) : Prop := f.p0 ≠ f.p1 ∧ ∀ p, IsProcess s p → OnTrack f p
  have hinv : inv s := by
    refine h.invariant (fun s hs => ⟨p0_ne_p1 hs, ?_⟩)
      fun _ _ _ hs hstep => ⟨hs.1, onTrack_step hs.1 hp0 hp1 hs.2 hstep⟩
    rintro q (hq | hq)
    · rw [hs.child] at hq
      cases hq
      exact .child ⟨fun fd => by simpa using hs.readEnd fd, fun fd => by simpa using hs.writeEnd fd⟩
    · rw [hs.others] at hq
      cases hq
  have hp' := hinv.2 p hp
  unfold OnTrack at hp'
  rw [himage] at hp'
  exact hp'

end

/-- The image of that child has its output in the pipe. -/
theorem image_plumbed_lateWriter :
    ∃ p t, lateRuns.child = .ok p ∧ p.image = some t ∧ Plumbed t :=
  ⟨_, _, rfl, rfl, @image_plumbed Libc.noMatch _ _ (by decide) (by decide) reachable_lateRuns _
    (.inl rfl) _ rfl⟩

end Blockad.Proofs
