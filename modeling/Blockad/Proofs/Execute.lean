import Blockad.Lib.Prog
import Blockad.Model.Execute

/-!
# `Blockad.Proofs.Execute`: the descriptors of `execute`

`execute` has a system call that can fail at each point, and two loops that go on over answers
that do not count. `readsOn` and `waitsOn` are these answers; each loop then has one equation for
them, and one for each answer that ends it.

* `body_ends`: the calls of the `try` block. `Returned` is what they are at its end, and `Failed`
  what they are at each `throw`, with the local variables that the handler gets.
* `descriptors_closed`: after a successful `pipe`, both ends are closed when `execute` returns or
  throws; it returns the status of a reaped child whose output was read to its end, and throws
  only for a call that failed.
-/

set_option autoImplicit false

namespace Blockad.Proofs

open Bytes Loop Prog Execute

/-! ### Calls -/

/-- The state after some more calls. -/
def called (s : Exec) (calls : List SysCall) : Exec := { s with calls := s.calls ++ calls }

section
variable (s : Exec) (calls more : List SysCall)

/-- The calls are logged in their order. -/
@[simp] theorem called_calls : (called s calls).calls = s.calls ++ calls := rfl

/-- No call changes nothing. -/
theorem called_nil : called s [] = s := by
  unfold called
  rw [List.append_nil]

/-- Two lists of calls are one list. -/
theorem called_called : called (called s calls) more = called s (calls ++ more) := by
  unfold called
  rw [List.append_assoc]

end

/-- A list of answers, up to the first one that does not go on. -/
theorem forall_or_exists_first {α : Type} (on : α → Bool) (answers : List α) :
    (∀ answer ∈ answers, on answer = true) ∨ ∃ before last rest,
      answers = before ++ last :: rest ∧ (∀ answer ∈ before, on answer = true) ∧
        on last = false := by
  cases hfind : answers.find? fun answer => !on answer with
  | none =>
    left
    simpa using List.find?_eq_none.mp hfind
  | some last =>
    obtain ⟨hlast, before, rest, heq, hbefore⟩ := List.find?_eq_some_iff_append.mp hfind
    right
    exact ⟨before, last, rest, heq, by simpa using hbefore, by simpa using hlast⟩

/-! ### The loop that captures the output -/

/-- The answers of `read` after which the loop goes on. -/
def readsOn : Except Errno Bytes → Bool
  | .error errno => errno == .EINTR
  | .ok bytes => !bytes.isEmpty

/-- The output in some answers of `read`. -/
def captured (reads : List (Except Errno Bytes)) : Bytes :=
  reads.flatMap fun result => result.toOption.getD []

section
variable {output bytes : Bytes} {errno : Errno} {reads rest : List (Except Errno Bytes)} {s : Exec}

/-- A read that was interrupted is made again. -/
theorem capture_interrupted :
    capture output (.error .EINTR :: reads) s =
      capture output reads (called s [.read s.p0 (.error .EINTR)]) := rfl

/-- Any other error of a read is thrown. -/
theorem capture_error (h : errno ≠ .EINTR) :
    capture output (.error errno :: reads) s =
      .error (.thrown (.ioError (lit "reading from pipe") none errno))
        (called s [.read s.p0 (.error errno)]) := by
  -- The call is recorded before its answer is looked at.
  show (if errno ≠ .EINTR then _ else capture output reads) _ = _
  rw [if_pos h]
  rfl

/-- What was read is appended to the output. -/
theorem capture_chunk (h : bytes ≠ []) :
    capture output (.ok bytes :: reads) s =
      capture (output ++ bytes) reads (called s [.read s.p0 (.ok bytes)]) := by
  cases bytes with
  | nil => exact absurd rfl h
  | cons c bytes => rfl

/-- An empty read ends the output. -/
theorem capture_eof :
    capture output (.ok [] :: reads) s = .ok output (called s [.read s.p0 (.ok [])]) := rfl

/-- The answers that do not end the loop. -/
theorem capture_append (h : ∀ result ∈ reads, readsOn result = true) :
    capture output (reads ++ rest) s =
      capture (output ++ captured reads) rest (called s (reads.map (.read s.p0))) := by
  induction reads generalizing output s with
  | nil =>
    rw [List.map_nil, called_nil]
    show capture output rest s = capture (output ++ []) rest s
    rw [List.append_nil]
  | cons result reads ih =>
    have hresult := h result List.mem_cons_self
    -- Each answer moves the state on, so the induction hypothesis is for any output and state.
    have hrest := @ih
    replace hrest {output s} := @hrest output s fun r hr => h r (List.mem_cons_of_mem result hr)
    cases result with
    | error errno =>
      have herrno : errno = .EINTR := by simpa [readsOn] using hresult
      rw [herrno, List.cons_append, capture_interrupted, hrest, called_called]
      rfl
    | ok bytes =>
      have hbytes : bytes ≠ [] := by simpa [readsOn] using hresult
      rw [List.cons_append, capture_chunk hbytes, hrest, called_called, List.append_assoc]
      rfl

/-- How the answers of `read` go on. -/
inductive ReadsCase : List (Except Errno Bytes) → Prop where
  | eof {reads : List (Except Errno Bytes)} (rest : List (Except Errno Bytes))
      (h : ∀ result ∈ reads, readsOn result = true) : ReadsCase (reads ++ .ok [] :: rest)
  | failed {reads : List (Except Errno Bytes)} {errno : Errno} (rest : List (Except Errno Bytes))
      (h : ∀ result ∈ reads, readsOn result = true) (herrno : errno ≠ .EINTR) :
      ReadsCase (reads ++ .error errno :: rest)
  | running {reads : List (Except Errno Bytes)} (h : ∀ result ∈ reads, readsOn result = true) :
      ReadsCase reads

/-- All the answers go on, or there is a first one that does not. -/
theorem reads_cases (reads : List (Except Errno Bytes)) : ReadsCase reads := by
  obtain h | ⟨before, last, rest, rfl, h, hlast⟩ := forall_or_exists_first readsOn reads
  · exact .running h
  · cases last with
    | error errno => exact .failed rest h (by simpa [readsOn] using hlast)
    | ok bytes =>
      have hbytes : bytes = [] := by simpa [readsOn] using hlast
      rw [hbytes]
      exact .eof rest h

/-- Answers that all go on do not end the loop. -/
theorem capture_running (h : ∀ result ∈ reads, readsOn result = true) :
    capture output reads s = .error .running (called s (reads.map (.read s.p0))) := by
  have happend := @capture_append output reads [] s h
  rw [List.append_nil] at happend
  rw [happend]
  rfl

end

/-! ### The loop that waits -/

/-- The answers of `waitpid` after which the loop goes on. -/
def waitsOn (pid : Int) : Except Errno (Nat × Int) → Bool
  | .error errno => errno == .EINTR
  | .ok (rpid, _) => (rpid : Int) != pid

section
variable {errno : Errno} {ws : Int} {rpid : Nat} {waits rest : List (Except Errno (Nat × Int))}
  {s : Exec}

/-- A wait that was interrupted is made again. -/
theorem wait_interrupted :
    wait (.error .EINTR :: waits) s = wait waits (called s [.waitpid s.pid (.error .EINTR)]) := rfl

/-- Any other error of a wait is thrown. -/
theorem wait_error (h : errno ≠ .EINTR) :
    wait (.error errno :: waits) s =
      .error (.thrown (.systemError (lit "waiting for subprocess") errno))
        (called s [.waitpid s.pid (.error errno)]) := by
  show (if errno ≠ .EINTR then _ else wait waits) _ = _
  rw [if_pos h]
  rfl

/-- The status of another process is not the one that is waited for. -/
theorem wait_other (h : (rpid : Int) ≠ s.pid) :
    wait (.ok (rpid, ws) :: waits) s = wait waits (called s [.waitpid s.pid (.ok (rpid, ws))]) := by
  show (if (rpid : Int) = s.pid then pure ws else wait waits) _ = _
  rw [if_neg h]
  rfl

/-- The status of the subprocess ends the loop. -/
theorem wait_reaped (h : (rpid : Int) = s.pid) :
    wait (.ok (rpid, ws) :: waits) s = .ok ws (called s [.waitpid s.pid (.ok (rpid, ws))]) := by
  show (if (rpid : Int) = s.pid then pure ws else wait waits) _ = _
  rw [if_pos h]
  rfl

/-- Answers that go on lead to the ones after them. -/
theorem wait_append (h : ∀ result ∈ waits, waitsOn s.pid result = true) :
    wait (waits ++ rest) s = wait rest (called s (waits.map (.waitpid s.pid))) := by
  induction waits generalizing s with
  | nil =>
    rw [List.map_nil, called_nil]
    rfl
  | cons result waits ih =>
    have hresult := h result List.mem_cons_self
    have hrest := @ih (called s [.waitpid s.pid result]) fun r hr =>
      h r (List.mem_cons_of_mem result hr)
    rw [called_called] at hrest
    cases result with
    | error errno =>
      have herrno : errno = .EINTR := by simpa [waitsOn] using hresult
      rw [herrno] at hrest ⊢
      rw [List.cons_append, wait_interrupted, hrest]
      rfl
    | ok answer =>
      obtain ⟨rpid, ws⟩ := answer
      have hother : (rpid : Int) ≠ s.pid := by simpa [waitsOn] using hresult
      rw [List.cons_append, wait_other hother, hrest]
      rfl

/-- How the answers of `waitpid` go on. -/
inductive WaitsCase (pid : Int) : List (Except Errno (Nat × Int)) → Prop where
  | reaped {waits : List (Except Errno (Nat × Int))} {rpid : Nat} (ws : Int)
      (rest : List (Except Errno (Nat × Int)))
      (h : ∀ result ∈ waits, waitsOn pid result = true) (hpid : (rpid : Int) = pid) :
      WaitsCase pid (waits ++ .ok (rpid, ws) :: rest)
  | failed {waits : List (Except Errno (Nat × Int))} {errno : Errno}
      (rest : List (Except Errno (Nat × Int)))
      (h : ∀ result ∈ waits, waitsOn pid result = true) (herrno : errno ≠ .EINTR) :
      WaitsCase pid (waits ++ .error errno :: rest)
  | running {waits : List (Except Errno (Nat × Int))}
      (h : ∀ result ∈ waits, waitsOn pid result = true) : WaitsCase pid waits

/-- The same cases as for the reads. -/
theorem waits_cases (pid : Int) (waits : List (Except Errno (Nat × Int))) :
    WaitsCase pid waits := by
  obtain h | ⟨before, last, rest, rfl, h, hlast⟩ := forall_or_exists_first (waitsOn pid) waits
  · exact .running h
  · cases last with
    | error errno => exact .failed rest h (by simpa [waitsOn] using hlast)
    | ok answer =>
      obtain ⟨rpid, ws⟩ := answer
      exact .reaped ws rest h (by simpa [waitsOn] using hlast)

/-- Answers that all go on do not end the loop. -/
theorem wait_running (h : ∀ result ∈ waits, waitsOn s.pid result = true) :
    wait waits s = .error .running (called s (waits.map (.waitpid s.pid))) := by
  have happend := @wait_append waits [] s h
  rw [List.append_nil] at happend
  rw [happend]
  rfl

end

/-! ### The other calls -/

section
variable {o : Outcomes} {errno : Errno} {s : Exec}

/-- Without a pipe, nothing is opened. -/
theorem createPipe_error (h : o.pipe = .error errno) :
    createPipe o s = .error (.thrown (.ioError (lit "creating pipe") none errno))
      (called s [.pipe (.error errno)]) := by
  unfold createPipe
  rw [h]
  rfl

/-- The ends of the pipe are kept. -/
theorem createPipe_ok {p₀ p₁ : Nat} (h : o.pipe = .ok (p₀, p₁)) :
    createPipe o s = .ok () { called s [.pipe (.ok (p₀, p₁))] with p0 := p₀, p1 := p₁ } := by
  unfold createPipe
  rw [h]
  rfl

/-- Without a subprocess, there is no pid. -/
theorem createSubprocess_error {argv : List Bytes} (h : o.fork = .error errno) :
    createSubprocess o argv s = .error (.thrown (.systemError (lit "creating subprocess") errno))
      (called s [.fork argv (.error errno)]) := by
  unfold createSubprocess
  rw [h]
  rfl

/-- The pid of the subprocess is kept. -/
theorem createSubprocess_ok {argv : List Bytes} {pid : Pid} (h : o.fork = .ok pid) :
    createSubprocess o argv s =
      .ok () { called s [.fork argv (.ok pid)] with pid := pid.val } := by
  unfold createSubprocess
  rw [h]
  rfl

/-- Reading the state changes nothing. -/
theorem get_eq (s : Exec) : (get : Execute.Prog Exec) s = .ok s s := rfl

/-- Each `close` takes its own answer. -/
theorem sysClose_eq (fd : Int) :
    close fd s = .ok (s.closes 0)
      { called s [.close fd (s.closes 0)] with closes := fun n => s.closes (n + 1) } := rfl

/-- A failed `close` is thrown, and the descriptor is still kept. -/
theorem closeWriteEnd_error (h : s.closes 0 = .error errno) :
    closeWriteEnd s = .error (.thrown (.ioError (lit "closing read end of pipe") none errno))
      { called s [.close s.p1 (.error errno)] with closes := fun n => s.closes (n + 1) } := by
  have hclose := @sysClose_eq s s.p1
  rw [h] at hclose
  unfold closeWriteEnd
  rw [bind_of_ok (get_eq s), bind_of_ok hclose]
  rfl

/-- After the `close`, the descriptor is forgotten. -/
theorem closeWriteEnd_ok (h : s.closes 0 = .ok ()) :
    closeWriteEnd s = .ok ()
      { called s [.close s.p1 (.ok ())] with p1 := -1, closes := fun n => s.closes (n + 1) } := by
  have hclose := @sysClose_eq s s.p1
  rw [h] at hclose
  unfold closeWriteEnd
  rw [bind_of_ok (get_eq s), bind_of_ok hclose]
  rfl

/-- A failure to close the read end is not looked at. -/
theorem closeReadEnd_eq :
    closeReadEnd s = .ok () { called s [.close s.p0 (s.closes 0)] with
      p0 := -1, closes := fun n => s.closes (n + 1) } := rfl

/-- The loop over the output changes the log only. -/
theorem dump_ends (o : Outcomes) (argv0 output : Bytes) (s : Exec) :
    Ends (fun _ s' => ∃ log, s' = { s with log }) (fun stop s' => stop = .running ∧ s' = s)
      (dump o argv0 output s) := by
  unfold dump
  cases run (dumpTurn output (selectLine argv0 output)) o.turns ⟨0, s.log⟩ with
  | none => exact ⟨rfl, rfl⟩
  | some log => exact ⟨log, rfl⟩

/-- The report makes no system call, and changes the log only. -/
theorem report_ends (o : Outcomes) (argv0 output : Bytes) (ws : Int) (s : Exec) :
    Ends (fun _ s' => ∃ log, s' = { s with log }) (fun stop s' => stop = .running ∧ s' = s)
      (report o argv0 output ws s) := by
  refine Ends.bind ((dump_ends o argv0 _ s).mono ?_ fun _ _ => id)
  rintro _ s' ⟨log, rfl⟩
  exact ⟨_, rfl⟩

end

/-! ### The calls of `execute` -/

section
variable (argv : List Bytes)

/-- The calls up to the close of the write end. -/
def openCalls (p₀ p₁ : Nat) (pid : Pid) : List SysCall :=
  [.pipe (.ok (p₀, p₁)), .fork argv (.ok pid), .close p₁ (.ok ())]

/-- The calls up to the close of the other end. -/
def readCalls (p₀ p₁ : Nat) (pid : Pid) (reads : List (Except Errno Bytes))
    (closed : Except Errno Unit) : List SysCall :=
  openCalls argv p₀ p₁ pid ++ reads.map (.read p₀) ++ [.read p₀ (.ok []), .close p₀ closed]

/-- No other command is executed. -/
def Forks (calls : List SysCall) : Prop :=
  ∀ argv' result, .fork argv' result ∈ calls → argv' = argv

/-- The calls before `execute` returns. It read the output to its end, and reaped the child. -/
def Returned (ws : Int) (calls : List SysCall) : Prop :=
  ∃ (p₀ p₁ : Nat) (pid : Pid) (reads : List (Except Errno Bytes)) (closed : Except Errno Unit)
    (waits : List (Except Errno (Nat × Int))),
    (∀ result ∈ reads, readsOn result = true) ∧ (∀ result ∈ waits, waitsOn pid.val result = true) ∧
      calls = readCalls argv p₀ p₁ pid reads closed ++ waits.map (.waitpid pid.val) ++
        [.waitpid pid.val (.ok (pid.val, ws))]

/-- The calls before a `throw`, and what the handler gets in `p` and `pid`. -/
inductive Failed : Exn → List SysCall → Int → Int → Int → Prop where
  | pipe (errno : Errno) :
      Failed (.ioError (lit "creating pipe") none errno) [.pipe (.error errno)] (-1) (-1) (-1)
  | fork (p₀ p₁ : Nat) (errno : Errno) :
      Failed (.systemError (lit "creating subprocess") errno)
        [.pipe (.ok (p₀, p₁)), .fork argv (.error errno)] p₀ p₁ (-1)
  | close (p₀ p₁ : Nat) (pid : Pid) (errno : Errno) :
      Failed (.ioError (lit "closing read end of pipe") none errno)
        [.pipe (.ok (p₀, p₁)), .fork argv (.ok pid), .close p₁ (.error errno)] p₀ p₁ pid.val
  | read (p₀ p₁ : Nat) (pid : Pid) {reads : List (Except Errno Bytes)} {errno : Errno}
      (hreads : ∀ result ∈ reads, readsOn result = true) (herrno : errno ≠ .EINTR) :
      Failed (.ioError (lit "reading from pipe") none errno)
        (openCalls argv p₀ p₁ pid ++ reads.map (.read p₀) ++ [.read p₀ (.error errno)])
        p₀ (-1) pid.val
  | wait (p₀ p₁ : Nat) (pid : Pid) {reads : List (Except Errno Bytes)}
      (closed : Except Errno Unit) {waits : List (Except Errno (Nat × Int))} {errno : Errno}
      (hreads : ∀ result ∈ reads, readsOn result = true)
      (hwaits : ∀ result ∈ waits, waitsOn pid.val result = true) (herrno : errno ≠ .EINTR) :
      Failed (.systemError (lit "waiting for subprocess") errno)
        (readCalls argv p₀ p₁ pid reads closed ++ waits.map (.waitpid pid.val) ++
          [.waitpid pid.val (.error errno)]) (-1) (-1) pid.val

variable {argv}

/-- A run that returned forked for nothing but the command. -/
theorem Returned.forks {ws : Int} {calls : List SysCall} (h : Returned argv ws calls) :
    Forks argv calls := by
  obtain ⟨p₀, p₁, pid, reads, closed, waits, -, -, rfl⟩ := h
  simp [Forks, readCalls, openCalls]

/-- Nor did a run that failed. -/
theorem Failed.forks {e : Exn} {calls : List SysCall} {p0 p1 pid : Int}
    (h : Failed argv e calls p0 p1 pid) : Forks argv calls := by
  cases h <;> simp [Forks, readCalls, openCalls]

end

/-! ### What the outcomes say -/

/-- The outcomes of a command that ends: its output in `reads`, and its status. -/
structure Finishes (o : Outcomes) (pid : Pid) (reads : List (Except Errno Bytes)) (ws : Int) :
    Prop where
  pipe : ∃ fds, o.pipe = .ok fds
  fork : o.fork = .ok pid
  close : o.closes 0 = .ok ()
  eof : ∃ rest, o.reads = reads ++ .ok [] :: rest
  goesOn : ∀ result ∈ reads, readsOn result = true
  reaped : ∃ waits rest, o.waits = waits ++ .ok (pid.val, ws) :: rest ∧
    ∀ result ∈ waits, waitsOn pid.val result = true

/-- No call fails for which `execute` throws. -/
structure Unfailing (o : Outcomes) : Prop where
  pipe : ∀ errno, o.pipe ≠ .error errno
  fork : ∀ errno, o.fork ≠ .error errno
  close : ∀ errno, o.closes 0 ≠ .error errno
  read : ∀ before errno rest, (∀ result ∈ before, readsOn result = true) →
    o.reads = before ++ .error errno :: rest → errno = .EINTR
  wait : ∀ pid before errno rest, o.fork = .ok pid →
    (∀ result ∈ before, waitsOn pid.val result = true) →
      o.waits = before ++ .error errno :: rest → errno = .EINTR

/-! ### The `try` block -/

section
variable (o : Outcomes) (debugging : Bool) (argv0 : Bytes) (argv : List Bytes)

/-- The `try` block after its first line of the log. -/
def forkAndExecute : Execute.Prog Int := do
  createPipe o
  createSubprocess o argv
  closeWriteEnd
  let output ← capture [] o.reads
  closeReadEnd
  let ws ← wait o.waits
  if ws ≠ 0 then
    report o argv0 output ws
  return ws

/-- The `try` block after the output. -/
def finish (output : Bytes) : Execute.Prog Int := do
  let ws ← wait o.waits
  if ws ≠ 0 then
    report o argv0 output ws
  return ws

/-- The log before the first system call. -/
def debugLog : List LogLine := if debugging then [debugLine argv] else []

/-- The body, after its first debug line. -/
theorem body_eq :
    body o debugging argv0 argv (.start o) =
      forkAndExecute o argv0 argv { Exec.start o with log := debugLog debugging argv } := by
  cases debugging <;> rfl

/-- The state before the output is read. -/
def pipeOpened (p₀ p₁ : Nat) (pid : Pid) : Exec :=
  ⟨p₀, -1, pid.val, fun n => o.closes (n + 1), openCalls argv p₀ p₁ pid, debugLog debugging argv⟩

/-- The state after the output was read. -/
def drained (p₀ p₁ : Nat) (pid : Pid) (reads : List (Except Errno Bytes)) : Exec :=
  ⟨-1, -1, pid.val, fun n => o.closes (n + 2), readCalls argv p₀ p₁ pid reads (o.closes 1),
    debugLog debugging argv⟩

variable {o argv0 argv debugging} {p₀ p₁ : Nat} {pid : Pid}

/-- After the pipe, the fork and the close comes the loop of the reads. -/
theorem attempt_opened (hpipe : o.pipe = .ok (p₀, p₁)) (hfork : o.fork = .ok pid)
    (hclose : o.closes 0 = .ok ()) :
    forkAndExecute o argv0 argv { Exec.start o with log := debugLog debugging argv } =
      (capture [] o.reads >>= fun output => closeReadEnd >>= fun _ => finish o argv0 output)
        (pipeOpened o debugging argv p₀ p₁ pid) := by
  unfold forkAndExecute
  rw [bind_of_ok (createPipe_ok hpipe), bind_of_ok (createSubprocess_ok hfork),
    bind_of_ok (closeWriteEnd_ok hclose)]
  rfl

/-- When the output ends, the read end is closed. -/
theorem capture_drained {reads rest : List (Except Errno Bytes)}
    (hreads : o.reads = reads ++ .ok [] :: rest)
    (hon : ∀ result ∈ reads, readsOn result = true) :
    (capture [] o.reads >>= fun output => closeReadEnd >>= fun _ => finish o argv0 output)
        (pipeOpened o debugging argv p₀ p₁ pid) =
      finish o argv0 (captured reads) (drained o debugging argv p₀ p₁ pid reads) := by
  have hcapture : capture [] o.reads (pipeOpened o debugging argv p₀ p₁ pid) =
      .ok (captured reads) (called (pipeOpened o debugging argv p₀ p₁ pid)
        (reads.map (.read p₀) ++ [.read p₀ (.ok [])])) := by
    rw [hreads, capture_append hon, capture_eof, called_called]
    rfl
  rw [bind_of_ok hcapture, bind_of_ok closeReadEnd_eq]
  congr 1
  simp only [called, drained, pipeOpened, readCalls, List.append_assoc, List.cons_append,
    List.nil_append]

/-- What holds when the `try` block ends normally. -/
def Ended (o : Outcomes) (argv : List Bytes) (ws : Int) (s : Exec) : Prop :=
  Returned argv ws s.calls ∧ ∃ pid reads, Finishes o pid reads ws

/-- What holds when it does not. -/
def Threw (o : Outcomes) (argv : List Bytes) (stop : Stop) (s : Exec) : Prop :=
  stop = .running ∧ Forks argv s.calls ∨
    ∃ e, stop = .thrown e ∧ Failed argv e s.calls s.p0 s.p1 s.pid ∧ ¬ Unfailing o

/-- After the output come the wait for the child and the report. -/
theorem finish_ends {reads rest : List (Except Errno Bytes)} (hpipe : o.pipe = .ok (p₀, p₁))
    (hfork : o.fork = .ok pid) (hclose : o.closes 0 = .ok ())
    (hreads : o.reads = reads ++ .ok [] :: rest)
    (hon : ∀ result ∈ reads, readsOn result = true) (output : Bytes) :
    Ends (Ended o argv) (Threw o argv)
      (finish o argv0 output (drained o debugging argv p₀ p₁ pid reads)) := by
  have hcase := waits_cases pid.val o.waits
  generalize hwaits : o.waits = answers at hcase
  refine Ends.bind ?_
  rw [hwaits]
  cases hcase with
  | @reaped waits rpid ws restWaits hwaitsOn hpid =>
    -- The child was reaped, and `ws` is its status.
    have hrpid : rpid = pid.val := Int.ofNat.inj hpid
    rw [wait_append hwaitsOn, wait_reaped hpid, called_called]
    rw [hrpid] at hwaits ⊢
    have hfinishes : Finishes o pid reads ws :=
      ⟨⟨_, hpipe⟩, hfork, hclose, ⟨rest, hreads⟩, hon, waits, restWaits, hwaits, hwaitsOn⟩
    have hreturned : Returned argv ws (readCalls argv p₀ p₁ pid reads (o.closes 1) ++
        (waits.map (.waitpid pid.val) ++ [.waitpid pid.val (.ok (pid.val, ws))])) := by
      refine ⟨p₀, p₁, pid, reads, o.closes 1, waits, hon, hwaitsOn, ?_⟩
      rw [List.append_assoc]
    show Ends _ _ ((if ws ≠ 0 then _ else _ : Execute.Prog Int) _)
    refine Ends.ite (fun _ => ?_) fun _ => ⟨hreturned, pid, reads, hfinishes⟩
    -- The report of a failed command adds lines to the log, and calls nothing.
    refine Ends.bind ((report_ends o argv0 output ws _).mono ?_ ?_)
    · rintro _ s' ⟨log, rfl⟩
      exact ⟨hreturned, pid, reads, hfinishes⟩
    · rintro stop s' ⟨hstop, rfl⟩
      exact .inl ⟨hstop, hreturned.forks⟩
  | @failed waits errno restWaits hwaitsOn herrno =>
    rw [wait_append hwaitsOn, wait_error herrno, called_called]
    -- Both ends were closed by now, and `p` says so to the handler.
    refine .inr ⟨_, rfl, ?_, fun h =>
      herrno (h.wait pid waits errno restWaits hfork hwaitsOn hwaits)⟩
    show Failed argv _ (readCalls argv p₀ p₁ pid reads (o.closes 1) ++ (_ ++ _)) (-1) (-1) pid.val
    rw [← List.append_assoc]
    exact .wait p₀ p₁ pid (o.closes 1) hon hwaitsOn herrno
  | running hwaitsOn =>
    rw [wait_running hwaitsOn]
    refine .inl ⟨rfl, ?_⟩
    show Forks argv (readCalls argv p₀ p₁ pid reads (o.closes 1) ++ _)
    simp [Forks, readCalls, openCalls]

/-- **The calls of the `try` block.** -/
theorem body_ends :
    Ends (Ended o argv) (Threw o argv)
      (body o debugging argv0 argv (.start o)) := by
  rw [body_eq]
  cases hpipe : o.pipe with
  | error errno =>
    unfold forkAndExecute
    rw [bind_of_error (createPipe_error hpipe)]
    -- The handler finds -1 in `p[0]`, `p[1]` and `pid`.
    exact .inr ⟨_, rfl, .pipe errno, fun h => h.pipe errno hpipe⟩
  | ok fds =>
    obtain ⟨p₀, p₁⟩ := fds
    cases hfork : o.fork with
    | error errno =>
      unfold forkAndExecute
      rw [bind_of_ok (createPipe_ok hpipe), bind_of_error (createSubprocess_error hfork)]
      -- Both ends are open, and `pid` is the -1 that `fork` returned.
      exact .inr ⟨_, rfl, .fork p₀ p₁ errno, fun h => h.fork errno hfork⟩
    | ok pid =>
      cases hclose : o.closes 0 with
      | error errno =>
        unfold forkAndExecute
        rw [bind_of_ok (createPipe_ok hpipe), bind_of_ok (createSubprocess_ok hfork),
          bind_of_error (closeWriteEnd_error hclose)]
        -- `p[1]` keeps its value, so that the handler closes it once more.
        exact .inr ⟨_, rfl, .close p₀ p₁ pid errno, fun h => h.close errno hclose⟩
      | ok u =>
        rw [attempt_opened hpipe hfork hclose]
        have hcase := reads_cases o.reads
        generalize hreads : o.reads = answers at hcase
        cases hcase with
        | eof rest hon =>
          rw [← hreads, capture_drained hreads hon]
          exact finish_ends hpipe hfork hclose hreads hon _
        | @failed reads errno rest hon herrno =>
          refine Ends.bind ?_
          rw [capture_append hon, capture_error herrno, called_called]
          -- Only the read end is left for the handler.
          refine .inr ⟨_, rfl, ?_, fun h => herrno (h.read reads errno rest hon hreads)⟩
          show Failed argv _ (openCalls argv p₀ p₁ pid ++ (_ ++ _)) p₀ (-1) pid.val
          rw [← List.append_assoc]
          exact .read p₀ p₁ pid hon herrno
        | running hon =>
          refine Ends.bind ?_
          rw [capture_running hon]
          -- The answers are used up.
          refine .inl ⟨rfl, ?_⟩
          show Forks argv (openCalls argv p₀ p₁ pid ++ _)
          simp [Forks, openCalls]

end

/-! ### The handler -/

/-- The close of a descriptor that may be stray. -/
def strayCalls (fd : Int) (closed : Except Errno Unit) : List SysCall :=
  if fd ≠ -1 then [.close fd closed] else []

/-- The calls of the handler. -/
def handled (p0 p1 pid : Int) (closed₀ closed₁ : Except Errno Unit) : List SysCall :=
  strayCalls p0 closed₀ ++ strayCalls p1 closed₁ ++ if pid ≠ -1 then [.waitpidNoHang pid] else []

/-- A descriptor that is still open is closed once. -/
theorem closeStray_eq (p : Exec → Int) (s : Exec) :
    ∃ s' closed, closeStray p s = .ok () s' ∧ s'.calls = s.calls ++ strayCalls (p s) closed ∧
      s'.p1 = s.p1 ∧ s'.pid = s.pid := by
  unfold closeStray
  rw [bind_of_ok (get_eq s)]
  by_cases hp : p s ≠ -1
  · have hcalls : strayCalls (p s) (s.closes 0) = [.close (p s) (s.closes 0)] := if_pos hp
    rw [if_pos hp]
    exact ⟨_, s.closes 0, rfl, by rw [hcalls], rfl, rfl⟩
  · have hcalls : strayCalls (p s) (s.closes 0) = [] := if_neg hp
    rw [if_neg hp]
    exact ⟨s, s.closes 0, rfl, by rw [hcalls, List.append_nil], rfl, rfl⟩

/-- A subprocess that is still there is waited for, without blocking. -/
theorem reap_eq (s : Exec) :
    reap s = .ok () (called s (if s.pid ≠ -1 then [.waitpidNoHang s.pid] else [])) := by
  unfold reap
  rw [bind_of_ok (get_eq s)]
  by_cases hpid : s.pid ≠ -1
  · rw [if_pos hpid, if_pos hpid]
    rfl
  · rw [if_neg hpid, if_neg hpid, called_nil]
    rfl

/-- The handler closes what is open, and reaps. -/
theorem cleanup_eq (s : Exec) :
    ∃ s' closed₀ closed₁, cleanup s = .ok () s' ∧
      s'.calls = s.calls ++ handled s.p0 s.p1 s.pid closed₀ closed₁ := by
  obtain ⟨s₀, closed₀, h₀, hcalls₀, hp1, hpid₀⟩ := closeStray_eq Exec.p0 s
  obtain ⟨s₁, closed₁, h₁, hcalls₁, -, hpid₁⟩ := closeStray_eq Exec.p1 s₀
  refine ⟨called s₁ (if s₁.pid ≠ -1 then [.waitpidNoHang s₁.pid] else []), closed₀, closed₁,
    ?_, ?_⟩
  · unfold cleanup
    rw [bind_of_ok h₀, bind_of_ok h₁, reap_eq]
  · rw [called_calls, hcalls₁, hcalls₀, hp1, hpid₁, hpid₀, handled]
    simp only [List.append_assoc]

/-! ### `execute` -/

/-- The calls before `execute` throws: those of the `try` block, and those of the handler. -/
def Escaped (argv : List Bytes) (e : Exn) (calls : List SysCall) : Prop :=
  ∃ tried p0 p1 pid closed₀ closed₁, Failed argv e tried p0 p1 pid ∧
    calls = tried ++ handled p0 p1 pid closed₀ closed₁

/-- **The calls of `execute`.** -/
theorem executeArgv_ends (o : Outcomes) (debugging : Bool) (argv0 : Bytes) (args : List Bytes) :
    Ends (Ended o (argv0 :: args))
      (fun stop s => stop = .running ∧ Forks (argv0 :: args) s.calls ∨
        ∃ e, stop = .thrown e ∧ Escaped (argv0 :: args) e s.calls ∧ ¬ Unfailing o)
      (executeArgv o debugging (argv0 :: args)) := by
  have hbody := @body_ends o debugging argv0 (argv0 :: args)
  show Ends _ _ (Execute.tryCatch _ cleanup (.start o))
  unfold Execute.tryCatch
  cases hrun : body o debugging argv0 (argv0 :: args) (.start o) with
  | ok ws s => exact hbody.ok hrun
  | error stop s =>
    obtain ⟨hstop, hforks⟩ | ⟨e, hstop, hfailed, hfailing⟩ := hbody.error hrun
    · rw [hstop]
      exact .inl ⟨rfl, hforks⟩
    · rw [hstop]
      obtain ⟨s', closed₀, closed₁, hcleanup, hcalls⟩ := cleanup_eq s
      dsimp only
      rw [bind_of_ok hcleanup]
      exact .inr ⟨e, rfl, ⟨s.calls, s.p0, s.p1, s.pid, closed₀, closed₁, hfailed, hcalls⟩,
        hfailing⟩

/-- `close` was called on a descriptor. -/
def WasClosed (calls : List SysCall) (fd : Nat) : Prop := ∃ result, .close fd result ∈ calls

/-- If `pipe` succeeded, `close` was called on both ends. -/
def BothClosed (calls : List SysCall) : Prop :=
  ∀ p₀ p₁, .pipe (.ok (p₀, p₁)) ∈ calls → WasClosed calls p₀ ∧ WasClosed calls p₁

section
variable {argv : List Bytes} {calls : List SysCall}

/-- A run that returned closed both ends. -/
theorem Returned.bothClosed {ws : Int} (h : Returned argv ws calls) : BothClosed calls := by
  obtain ⟨p₀, p₁, pid, reads, closed, waits, -, -, rfl⟩ := h
  intro q₀ q₁ hmem
  obtain ⟨rfl, rfl⟩ : q₀ = p₀ ∧ q₁ = p₁ := by simpa [readCalls, openCalls] using hmem
  exact ⟨⟨closed, by simp [readCalls, openCalls]⟩, ⟨.ok (), by simp [readCalls, openCalls]⟩⟩

/-- A descriptor is never -1. -/
theorem natCast_ne_neg_one (n : Nat) : (n : Int) ≠ -1 := by omega

/-- A run that threw closed what it had opened. -/
theorem Escaped.bothClosed {e : Exn} (h : Escaped argv e calls) : BothClosed calls := by
  obtain ⟨tried, p0, p1, pid, closed₀, closed₁, hfailed, rfl⟩ := h
  intro q₀ q₁ hmem
  cases hfailed with
  | pipe errno => simp [handled, strayCalls] at hmem
  | fork p₀ p₁ errno =>
    obtain ⟨rfl, rfl⟩ : q₀ = p₀ ∧ q₁ = p₁ := by simpa [handled, strayCalls] using hmem
    -- Both are left to the handler.
    exact ⟨⟨closed₀, by simp [handled, strayCalls, natCast_ne_neg_one]⟩,
      ⟨closed₁, by simp [handled, strayCalls, natCast_ne_neg_one]⟩⟩
  | close p₀ p₁ pid errno =>
    obtain ⟨rfl, rfl⟩ : q₀ = p₀ ∧ q₁ = p₁ := by simpa [handled, strayCalls] using hmem
    exact ⟨⟨closed₀, by simp [handled, strayCalls, natCast_ne_neg_one]⟩,
      ⟨closed₁, by simp [handled, strayCalls, natCast_ne_neg_one]⟩⟩
  | read p₀ p₁ pid hreads herrno =>
    obtain ⟨rfl, rfl⟩ : q₀ = p₀ ∧ q₁ = p₁ := by
      simpa [openCalls, handled, strayCalls] using hmem
    -- The write end was closed before the first `read`.
    exact ⟨⟨closed₀, by simp [handled, strayCalls, natCast_ne_neg_one]⟩,
      ⟨.ok (), by simp [openCalls]⟩⟩
  | wait p₀ p₁ pid closed hreads hwaits herrno =>
    obtain ⟨rfl, rfl⟩ : q₀ = p₀ ∧ q₁ = p₁ := by
      simpa [readCalls, openCalls, handled, strayCalls] using hmem
    -- The handler has nothing to close.
    exact ⟨⟨closed, by simp [readCalls]⟩, ⟨.ok (), by simp [readCalls, openCalls]⟩⟩

/-- The handler forks nothing. -/
theorem Escaped.forks {e : Exn} (h : Escaped argv e calls) : Forks argv calls := by
  obtain ⟨tried, p0, p1, pid, closed₀, closed₁, hfailed, rfl⟩ := h
  intro argv' result hmem
  obtain hmem | hmem := List.mem_append.mp hmem
  · exact hfailed.forks argv' result hmem
  · unfold handled strayCalls at hmem
    -- The handler closes and waits, and does not fork.
    split at hmem <;> split at hmem <;> split at hmem <;> simp at hmem

end

/-- `execute` executes one command. -/
theorem executeArgv_forks (o : Outcomes) (debugging : Bool) (argv0 : Bytes) (args : List Bytes) :
    Forks (argv0 :: args) (stateOf (executeArgv o debugging (argv0 :: args))).calls := by
  have hends := executeArgv_ends o debugging argv0 args
  cases hrun : executeArgv o debugging (argv0 :: args) with
  | ok ws s => exact (hends.ok hrun).1.forks
  | error stop s =>
    obtain ⟨-, hforks⟩ | ⟨e, -, hescaped, -⟩ := hends.error hrun
    · exact hforks
    · exact hescaped.forks

/-- **The descriptors of `execute`.** Its end, normal or not, closes both ends of the pipe. It
returns the status of a child that it reaped, after the whole output, as the outcomes have them, and
throws for a call that failed. -/
theorem descriptors_closed (o : Outcomes) (debugging : Bool) (argv0 : Bytes) (args : List Bytes) :
    (∀ ws s, executeArgv o debugging (argv0 :: args) = .ok ws s →
      BothClosed s.calls ∧ Ended o (argv0 :: args) ws s) ∧
    (∀ e s, executeArgv o debugging (argv0 :: args) = .error (.thrown e) s →
      BothClosed s.calls ∧ Escaped (argv0 :: args) e s.calls ∧ ¬ Unfailing o) ∧
    ∀ s, executeArgv o debugging (argv0 :: args) ≠ .error .aborted s := by
  have hends := executeArgv_ends o debugging argv0 args
  refine ⟨fun ws s hrun => ?_, fun e s hrun => ?_, fun s hrun => ?_⟩
  · have hended := hends.ok hrun
    exact ⟨hended.1.bothClosed, hended⟩
  -- A run that has not ended does not throw.
  · obtain ⟨hstop, -⟩ | ⟨e', hstop, hescaped, hfailing⟩ := hends.error hrun
    · cases hstop
    · cases hstop
      exact ⟨hescaped.bothClosed, hescaped, hfailing⟩
  · obtain ⟨hstop, -⟩ | ⟨e, hstop, -⟩ := hends.error hrun
    · cases hstop
    · cases hstop

end Blockad.Proofs
