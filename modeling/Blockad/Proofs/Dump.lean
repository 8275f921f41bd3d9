import Blockad.Proofs.Execute

/-!
# `Blockad.Proofs.Dump`: the output of a command that failed

`execute` logs the output line by line, and finds the end of a line with `find('\n', pos)`. The
output was completed to end with a newline, so that there is one after every position before its
end; without it, `pos` would go back to the start.

* `exists_find`: from each position before the end, there is a line.
* `run_dumpTurn`: the loop ends, and selects lines that make up the output.
* `output_dumped`: the log of `execute`, for a command with any output that failed.
-/

set_option autoImplicit false

namespace Blockad.Proofs

open Bytes Loop Prog Sizes Execute

/-! ### Lines -/

/-- The text from `pos` to `nl`. -/
def selected (output : Bytes) (span : Nat × Nat) : Bytes :=
  (output.drop span.1).take (span.2 - span.1)

/-- The output is empty, or ends with a newline. -/
def Complete (output : Bytes) : Prop := output = [] ∨ output.getLast? = some nl

/-- A completed output is complete. -/
theorem complete_complete (output : Bytes) : Complete (complete output) := by
  unfold complete
  by_cases hadd : (!output.isEmpty && output.getLast? != some nl) = true
  · rw [if_pos hadd]
    exact .inr (List.getLast?_concat)
  · rw [if_neg hadd]
    unfold Complete
    simpa [or_iff_not_imp_left] using hadd

/-- The completed output has at most one more byte. -/
theorem length_complete_le (output : Bytes) : (complete output).length ≤ output.length + 1 := by
  unfold complete
  by_cases hadd : (!output.isEmpty && output.getLast? != some nl) = true
  · rw [if_pos hadd, List.length_append]
    exact le_rfl
  · rw [if_neg hadd]
    omega

section
variable {output : Bytes} {pos : Nat}

/-- Each position before the end has a line. -/
theorem exists_find (h : Complete output) (hpos : pos < output.length) :
    ∃ i, find output nl pos = some i ∧ pos ≤ i ∧ i < output.length ∧
      selected output (pos, i) ++ nl :: output.drop (i + 1) = output.drop pos := by
  have hlast : output.getLast? = some nl := by
    obtain rfl | hlast := h
    · cases hpos
    · exact hlast
  -- The output ends with a newline, which is in what is left from `pos` on.
  have hmem : nl ∈ output.drop pos := by
    have hdrop : (output.drop pos).getLast? = some nl := by
      rw [List.getLast?_drop, if_neg (by omega), hlast]
    exact List.mem_of_getLast? hdrop
  obtain ⟨j, hj⟩ := Option.isSome_iff_exists.mp (List.isSome_idxOf?.mpr hmem)
  obtain ⟨before, after, hsplit, hbefore, -⟩ := exists_of_idxOf?_eq_some hj
  have hafter : output.drop (pos + j + 1) = after := by
    rw [Nat.add_assoc, ← List.drop_drop, hsplit, ← hbefore]
    simp
  have hselected : selected output (pos, pos + j) = before := by
    unfold selected
    dsimp only
    rw [Nat.add_sub_cancel_left, hsplit, ← hbefore, List.take_left]
  have hlen : (output.drop pos).length = j + 1 + after.length := by
    rw [hsplit, List.length_append, List.length_cons, hbefore]
    omega
  rw [List.length_drop] at hlen
  refine ⟨pos + j, ?_, Nat.le_add_right pos j, by omega, ?_⟩
  · unfold find
    rw [hj]
    rfl
  · rw [hselected, hafter, hsplit]

variable {σ : Type} {select : Nat → Option Nat → σ → σ}

/-- One turn over the next line. -/
theorem dumpTurn_eq {i : Nat} (hpos : pos < output.length) (h : find output nl pos = some i)
    (state : σ) :
    dumpTurn output select ⟨pos, state⟩ = .next ⟨i + 1, select pos (some i) state⟩ := by
  unfold dumpTurn
  rw [if_pos hpos]
  dsimp only
  rw [h]

/-- The last turn. -/
theorem dumpTurn_eq_done (h : output.length ≤ pos) (state : σ) :
    dumpTurn output select ⟨pos, state⟩ = .done state := by
  unfold dumpTurn
  rw [if_neg (by dsimp only; omega)]

/-- The loop from a position on. -/
theorem run_dumpTurn (h : Complete output) {turns : Nat} (hpos : pos ≤ output.length)
    (hturns : output.length - pos < turns) (state : σ) :
    ∃ spans : List (Nat × Nat),
      (spans.flatMap fun span => selected output span ++ [nl]) = output.drop pos ∧
      (∀ span ∈ spans, find output nl span.1 = some span.2) ∧
      run (dumpTurn output select) turns ⟨pos, state⟩ =
        some (spans.foldl (fun s span => select span.1 (some span.2) s) state) := by
  induction turns generalizing pos state with
  | zero => omega
  | succ turns ih =>
    by_cases hend : output.length ≤ pos
    -- The output is used up.
    · refine ⟨[], ?_, fun span hspan => (by cases hspan), ?_⟩
      · rw [List.drop_of_length_le hend, List.flatMap_nil]
      · rw [run_of_done (dumpTurn_eq_done hend state)]
        rfl
    -- `pos` moves past the newline at `i`, so that there is less output after it.
    · obtain ⟨i, hfind, hle, hlt, hline⟩ := exists_find h (by omega : pos < output.length)
      obtain ⟨spans, hspans, hfinds, hrun⟩ :=
        @ih (i + 1) (by omega) (by omega) (select pos (some i) state)
      refine ⟨(pos, i) :: spans, ?_, ?_, ?_⟩
      · rw [List.flatMap_cons, hspans, List.append_assoc]
        exact hline
      · intro span hspan
        obtain rfl | hspan := List.mem_cons.mp hspan
        · exact hfind
        · exact hfinds span hspan
      · rw [run_of_next (dumpTurn_eq (by omega) hfind state), hrun]
        rfl

end

/-! ### `execute` -/

section
variable {o : Outcomes} {pid : Pid} {reads : List (Except Errno Bytes)} {ws : Int}
  {argv0 : Bytes} {argv : List Bytes} {debugging : Bool}

/-- The wait for the child, after the output was read. -/
theorem wait_drained {p₀ p₁ : Nat} (h : Finishes o pid reads ws) :
    ∃ calls, wait o.waits (drained o debugging argv p₀ p₁ pid reads) =
      .ok ws (called (drained o debugging argv p₀ p₁ pid reads) calls) := by
  obtain ⟨waits, rest, hwaits, hon⟩ := h.reaped
  refine ⟨waits.map (.waitpid pid.val) ++ [.waitpid pid.val (.ok (pid.val, ws))], ?_⟩
  rw [hwaits, wait_append hon, wait_reaped rfl, called_called]
  rfl

/-- There is no report on a command that succeeded. -/
theorem finish_zero {p₀ p₁ : Nat} (h : Finishes o pid reads 0) (output : Bytes) :
    ∃ s, finish o argv0 output (drained o debugging argv p₀ p₁ pid reads) = .ok 0 s := by
  obtain ⟨calls, hwait⟩ := @wait_drained o pid reads 0 argv debugging p₀ p₁ h
  unfold finish
  rw [bind_of_ok hwait]
  exact ⟨_, rfl⟩

/-- The wait for the child and the report, after the output was read. -/
theorem finish_eq {p₀ p₁ : Nat} (h : Finishes o pid reads ws) (hws : ws ≠ 0)
    {log : List LogLine} (output : Bytes)
    (hrun : run (dumpTurn (complete output) (selectLine argv0 (complete output))) o.turns
      ⟨0, debugLog debugging argv⟩ = some log) :
    ∃ s, finish o argv0 output (drained o debugging argv p₀ p₁ pid reads) = .ok ws s ∧
      s.log = log ++ [statusLine argv0 ws] := by
  obtain ⟨calls, hwait⟩ := @wait_drained o pid reads ws argv debugging p₀ p₁ h
  -- The loop looks at the log of the state only, whatever calls were made before.
  have hdump : ∀ s : Exec, s.log = debugLog debugging argv →
      dump o argv0 (complete output) s = .ok () { s with log } := by
    intro s hs
    unfold dump
    rw [hs, hrun]
  have hreport : ∀ s : Exec, s.log = debugLog debugging argv →
      report o argv0 output ws s = .ok () { s with log := log ++ [statusLine argv0 ws] } := by
    intro s hs
    unfold report
    rw [bind_of_ok (hdump s hs)]
    rfl
  unfold finish
  rw [bind_of_ok hwait]
  dsimp only
  rw [if_pos hws, bind_of_ok (hreport _ rfl)]
  exact ⟨_, rfl, rfl⟩

/-- `execute`, for a command that ends. -/
theorem executeArgv_of_finish {args : List Bytes} {p₀ p₁ : Nat} {s : Exec}
    (h : Finishes o pid reads ws) (hpipe : o.pipe = .ok (p₀, p₁))
    (hfinish : finish o argv0 (captured reads)
      (drained o debugging (argv0 :: args) p₀ p₁ pid reads) = .ok ws s) :
    executeArgv o debugging (argv0 :: args) = .ok ws s := by
  obtain ⟨rest, hreads⟩ := h.eof
  have hbody : body o debugging argv0 (argv0 :: args) (.start o) = .ok ws s := by
    rw [body_eq, attempt_opened hpipe h.fork h.close, capture_drained hreads h.goesOn, hfinish]
  show Execute.tryCatch _ cleanup (.start o) = _
  unfold Execute.tryCatch
  rw [hbody]

/-- `execute`, for a command that fails. -/
theorem executeArgv_eq {args : List Bytes} (h : Finishes o pid reads ws) (hws : ws ≠ 0)
    {log : List LogLine}
    (hrun : run (dumpTurn (complete (captured reads))
        (selectLine argv0 (complete (captured reads)))) o.turns
      ⟨0, debugLog debugging (argv0 :: args)⟩ = some log) :
    ∃ s, executeArgv o debugging (argv0 :: args) = .ok ws s ∧
      s.log = log ++ [statusLine argv0 ws] := by
  obtain ⟨⟨p₀, p₁⟩, hpipe⟩ := h.pipe
  obtain ⟨s, hfinish, hlog⟩ := @finish_eq o pid reads ws argv0 (argv0 :: args) debugging p₀ p₁ h
    hws log (captured reads) hrun
  exact ⟨s, executeArgv_of_finish h hpipe hfinish, hlog⟩

/-- **A command that ends is executed to its end**, if the loop over the output of a failed one is
followed to its end. -/
theorem executeArgv_of_finishes (h : Finishes o pid reads ws)
    (hturns : ws ≠ 0 → (captured reads).length + 1 < o.turns) (debugging : Bool) (argv0 : Bytes)
    (args : List Bytes) : ∃ s, executeArgv o debugging (argv0 :: args) = .ok ws s := by
  by_cases hws : ws = 0
  · subst hws
    obtain ⟨⟨p₀, p₁⟩, hpipe⟩ := h.pipe
    obtain ⟨s, hfinish⟩ := @finish_zero o pid reads argv0 (argv0 :: args) debugging p₀ p₁ h
      (captured reads)
    exact ⟨s, executeArgv_of_finish h hpipe hfinish⟩
  · have hlen := length_complete_le (captured reads)
    have hend := hturns hws
    obtain ⟨spans, -, -, hrun⟩ := @run_dumpTurn (complete (captured reads)) 0 _
      (selectLine argv0 (complete (captured reads))) (complete_complete (captured reads)) o.turns
      (Nat.zero_le _) (by omega) (debugLog debugging (argv0 :: args))
    obtain ⟨s, hs, -⟩ := executeArgv_eq h hws hrun
    exact ⟨s, hs⟩

end

/-- The log grows by the line of each span. -/
theorem foldl_selectLine {argv0 output : Bytes} (spans : List (Nat × Nat)) (log : List LogLine) :
    spans.foldl (fun s span => selectLine argv0 output span.1 (some span.2) s) log =
      log ++ spans.map fun span => outputLine argv0 output span.1 (some span.2) := by
  induction spans generalizing log with
  | nil => exact (List.append_nil log).symm
  | cons span spans ih =>
    rw [List.foldl_cons, ih, List.map_cons, selectLine, List.append_assoc]
    rfl

/-- A line that fits in an `int` and has no NUL is logged as it is. -/
theorem outputLine_eq {argv0 output : Bytes} {span : Nat × Nat}
    (hfind : find output nl span.1 = some span.2) (hlt : span.2 < 0x80000000)
    (hnul : 0 ∉ selected output span) :
    outputLine argv0 output span.1 (some span.2) =
      ⟨.info, argv0 ++ lit ": " ++ selected output span⟩ := by
  obtain ⟨pos, i⟩ := span
  have hle : pos ≤ i := by
    obtain ⟨j, -, hj⟩ := Option.map_eq_some_iff.mp hfind
    dsimp only at hj
    omega
  dsimp only at hlt
  have hprecision : toInt (subSize i pos) = (i - pos : Nat) := by
    rw [subSize_of_le hle (by omega), toInt_of_lt (by omega)]
  have htext : precisionText (i - pos : Nat) (output.drop pos) = selected output (pos, i) := by
    unfold precisionText
    rw [if_neg (by omega)]
    exact cstr_eq_self hnul
  show LogLine.mk _ (_ ++ precisionText (toInt (subSize i pos)) (output.drop pos)) = _
  rw [hprecision, htext]

/-- **The dump of the output.** For a command with any output that failed, the loop ends after
enough turns, each turn finds a newline, and the selected lines make up the output. A line that
fits in an `int` and has no NUL is logged as it is. -/
theorem output_dumped {o : Outcomes} {pid : Pid} {reads : List (Except Errno Bytes)} {ws : Int}
    (h : Finishes o pid reads ws) (hws : ws ≠ 0) (debugging : Bool)
    (argv0 : Bytes) (args : List Bytes) :
    ∃ spans : List (Nat × Nat),
      (spans.flatMap fun span => selected (complete (captured reads)) span ++ [nl]) =
        complete (captured reads) ∧
      (∀ span ∈ spans, find (complete (captured reads)) nl span.1 = some span.2 ∧
        (span.2 < 0x80000000 → 0 ∉ selected (complete (captured reads)) span →
          outputLine argv0 (complete (captured reads)) span.1 (some span.2) =
            ⟨.info, argv0 ++ lit ": " ++ selected (complete (captured reads)) span⟩)) ∧
      (∀ log d, Visits (dumpTurn (complete (captured reads))
          (selectLine argv0 (complete (captured reads)))) ⟨0, log⟩ d →
        d.pos < (complete (captured reads)).length →
          (find (complete (captured reads)) nl d.pos).isSome) ∧
      ∀ turns, (captured reads).length + 1 < turns →
        ∃ s, executeArgv { o with turns } debugging (argv0 :: args) = .ok ws s ∧
          s.log = debugLog debugging (argv0 :: args) ++
            (spans.map fun span =>
              outputLine argv0 (complete (captured reads)) span.1 (some span.2)) ++
            [statusLine argv0 ws] := by
  have hcomplete := complete_complete (captured reads)
  have hlen := length_complete_le (captured reads)
  let output := complete (captured reads)
  let log := debugLog debugging (argv0 :: args)
  obtain ⟨spans, hspans, hfinds, hrun⟩ := @run_dumpTurn output 0 _ (selectLine argv0 output)
    hcomplete (output.length + 1) (Nat.zero_le _) (by omega) log
  refine ⟨spans, hspans, fun span hspan => ?_, fun _ d _ hpos => ?_, fun turns hturns => ?_⟩
  · have hfind := hfinds span hspan
    exact ⟨hfind, outputLine_eq hfind⟩
  · obtain ⟨i, hfind, -⟩ := exists_find hcomplete hpos
    rw [hfind]
    rfl
  · have hfinishes : Finishes { o with turns } pid reads ws :=
      ⟨h.pipe, h.fork, h.close, h.eof, h.goesOn, h.reaped⟩
    -- The result of the loop is the same for all greater numbers of turns.
    have hturns : output.length + 1 ≤ turns := by
      show (complete (captured reads)).length + 1 ≤ turns
      omega
    obtain ⟨s, hs, hlog⟩ := executeArgv_eq hfinishes hws (run_mono hrun hturns)
    refine ⟨s, hs, ?_⟩
    rw [hlog, foldl_selectLine]

/-- A command that writes three lines, the last of them without a newline, and fails. -/
def failure : Outcomes :=
  { pipe := .ok (3, 4)
    fork := .ok ⟨7, by decide⟩
    closes := fun _ => .ok ()
    reads := [.ok (lit "a\n\n"), .error .EINTR, .ok (lit "b"), .ok []]
    waits := [.error .EINTR, .ok (7, 256)]
    turns := 0 }

/-- An output with an empty line in it. -/
theorem output_dumped_failure :
    ∃ spans : List (Nat × Nat),
      (spans.flatMap fun span => selected (lit "a\n\nb\n") span ++ [nl]) = lit "a\n\nb\n" ∧
      ∀ turns, 5 < turns → ∃ s, executeArgv { failure with turns } false [lit "x"] = .ok 256 s ∧
        s.log = (spans.map fun span =>
            outputLine (lit "x") (lit "a\n\nb\n") span.1 (some span.2)) ++
          [statusLine (lit "x") 256] := by
  have hfinishes : Finishes failure ⟨7, by decide⟩
      [.ok (lit "a\n\n"), .error .EINTR, .ok (lit "b")] 256 :=
    ⟨⟨(3, 4), rfl⟩, rfl, rfl, ⟨[], rfl⟩, by decide, [.error .EINTR], [], rfl, by decide⟩
  obtain ⟨spans, hspans, -, -, hrun⟩ := output_dumped hfinishes (by decide) false (lit "x") []
  exact ⟨spans, hspans, hrun⟩

end Blockad.Proofs
