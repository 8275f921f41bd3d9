import Blockad.Proofs.BlockMethods
import Blockad.Proofs.Detection

/-!
# `Blockad.Proofs.BlockFailures`: attempts to block that fail

An attempt fails in many ways, and each is an ordinary result if it is only a `false` for
`detectedAddress`. `hosts.deny` makes every failure one. `execute` throws for some of them, and
`BlockIptables::block` lets these exceptions pass.

* `iptables_result`: for a run of `execute` that ends, `Unfailing` outcomes are those for which
  `block` returns.
* `detectedAddress_run`: one detection, with the log.
* `failed_block_ordinary`: an attempt is ordinary, and its failure is logged and made good later,
  unless it is one of `BlockIptables` in which a call fails.
* `detectedAddress_refines`: `Blockad.Model.BlockingWatcher` has these detections, with the result
  of `block` as it is computed here.
-/

set_option autoImplicit false

namespace Blockad.Proofs

open Bytes Prog BlockingWatcher

/-! ### The outcomes of `execute` -/

section
variable {o : Outcomes} {pid pid' : Pid} {reads reads' : List (Except Errno Bytes)} {ws ws' : Int}

end

/-! ### The result of `block` -/

section
variable [Libc] [InetNtop]

/-- A machine without a past. -/
def freshHost : Host := ⟨[], [], fun _ => []⟩

variable {a : Address} {program before after text : Bytes} {debugging : Bool} {o : BlockOutcomes}

end

/-! ### One detection -/

section
variable (d : HostDaemon) (a b : Address) (ad : AddressData)

/-- The data of one address changes. -/
theorem daemon_dataOf_update :
    (d.update a ad).dataOf b = if a = b then ad else d.dataOf b := by
  simp only [HostDaemon.dataOf, HostDaemon.update, Std.TreeMap.getD_insert,
    Std.LawfulEqCmp.compare_eq_iff_eq]

/-- The store with some more lines in the log. -/
def logged (lines : List LogLine) : HostDaemon :=
  { d with host := { d.host with log := d.host.log ++ lines } }

/-- A line of the log changes no data. -/
@[simp] theorem dataOf_logged (lines : List LogLine) : (logged d lines).dataOf b = d.dataOf b := rfl

/-- The next outcomes change no data. -/
@[simp] theorem daemon_dataOf_next : d.next.dataOf b = d.dataOf b := rfl

end

/-- The debugging lines of a detection. -/
def debugged (debugging : Bool) (line : Bytes) (d : HostDaemon) : HostDaemon :=
  if debugging then logged d [⟨.debug, line⟩] else d

/-- A debug line changes no data. -/
theorem dataOf_debugged (debugging : Bool) (line : Bytes) (d : HostDaemon) (a : Address) :
    (debugged debugging line d).dataOf a = d.dataOf a := by
  cases debugging <;> rfl

/-- It is no call of a block method. -/
theorem blockCalls_debugged (debugging : Bool) (line : Bytes) (d : HostDaemon) :
    (debugged debugging line d).blockCalls = d.blockCalls := by
  cases debugging <;> rfl

/-- A call of `block` was made, and the data of the addresses is what it was. -/
structure Called (d : HostDaemon) (a : Address) (d' : HostDaemon) : Prop where
  addressData : d'.addressData = d.addressData
  future : d'.future = d.future
  blockCalls : d'.blockCalls = d.blockCalls ++ [a]

/-- A call of a block method changes no data itself. -/
theorem dataOf_of_called {d d' : HostDaemon} {b : Address} (h : Called d b d') (a : Address) :
    d'.dataOf a = d.dataOf a := by
  unfold HostDaemon.dataOf
  rw [h.addressData]

/-- The times of an address with that of the next detection. -/
def timesOf [Libc] (cf : ConfFile) (a : Address) (d : HostDaemon) : List Int :=
  recordTime (d.dataOf a).times (d.future 0).now cf.rateInterval

section
variable [Libc] [InetNtop] {a : Address} {program before after text : Bytes} (debugging : Bool)
  (cf : ConfFile)

/-- An address that can be written is written into the log. -/
theorem logAbout_eq (h : Texts a program before after text) (priority : Priority)
    (what rest : Bytes) (d : HostDaemon) :
    HostDaemon.logAbout priority what a rest d =
      .ok () (logged d [⟨priority, what ++ text ++ rest⟩]) := by
  unfold HostDaemon.logAbout HostDaemon.run
  rw [h.asString]
  show EStateM.Result.ok () _ = _
  rw [cstr_eq_self (zero_notMem_of_textChars h.chars)]
  rfl

/-- One attempt to block. -/
theorem blockAddress_ends (h : Texts a program before after text) (o : BlockOutcomes)
    (d : HostDaemon) :
    Ends (fun blocked d' => Called d a d' ∧
        (∃ m m', BlockMethod.block debugging o a cf.block m = .ok blocked m') ∧
        (blocked = false →
          ∃ log, d'.host.log = log ++ [⟨.error, lit "failed to block " ++ text⟩]))
      (fun stop d' => Called d a d' ∧
        ∃ m m', BlockMethod.block debugging o a cf.block m = .error stop m')
      (HostDaemon.blockAddress debugging cf a o d) := by
  unfold HostDaemon.blockAddress
  rw [bind_of_ok (logAbout_eq h _ _ _ d)]
  refine Ends.bind ?_
  refine Ends.bind ?_
  show Ends _ _ (HostDaemon.run _ _)
  unfold HostDaemon.run
  dsimp only
  cases hrun : BlockMethod.block debugging o a cf.block
      (logged d [⟨.info, lit "blocking " ++ text ++ []⟩]).host with
  | error stop m' => exact ⟨⟨rfl, rfl, rfl⟩, _, m', hrun⟩
  | ok blocked m' =>
    cases blocked with
    | true => exact ⟨⟨rfl, rfl, rfl⟩, ⟨_, m', hrun⟩, fun hfalse => by cases hfalse⟩
    | false =>
      refine Ends.bind ?_
      -- `blockAddress` logs the failure last.
      rw [logAbout_eq h]
      refine ⟨⟨rfl, rfl, rfl⟩, ⟨_, m', hrun⟩, fun _ => ⟨m'.log, ?_⟩⟩
      show m'.log ++ [⟨.error, lit "failed to block " ++ text ++ []⟩] = _
      rw [List.append_nil]

/-- `detectedAddress` after its first line of the log. -/
def judge (a : Address) (trial : Trial) : EStateM Stop HostDaemon Unit := do
  if isExempted cf a then
    if debugging then HostDaemon.logAbout .debug [] a (lit " is exempted")
  else
    let ad := (← get).dataOf a
    unless ad.blocked do
      let times := recordTime ad.times trial.now cf.rateInterval
      modify (·.update a { ad with times })
      if times.length > cf.rateMax then
        if ← HostDaemon.blockAddress debugging cf a trial.outcomes then
          modify (·.update a { times, blocked := true })

/-- After the line about the detection comes the judgement. -/
theorem detectedAddress_eq_judge (h : Texts a program before after text) (d : HostDaemon) :
    HostDaemon.detectedAddress debugging cf a d =
      judge debugging cf a (d.future 0)
        (debugged debugging (lit "detected " ++ text ++ []) d.next) := by
  cases debugging with
  | false => rfl
  | true =>
    have hlog := logAbout_eq h .debug (lit "detected ") [] d.next
    show (HostDaemon.logAbout .debug (lit "detected ") a [] >>= fun _ =>
      judge true cf a (d.future 0)) d.next = _
    rw [bind_of_ok hlog]
    rfl

/-- **One detection.** -/
theorem daemon_detectedAddress_run (h : Texts a program before after text) (d : HostDaemon) :
    HostDaemon.detectedAddress debugging cf a d =
      let d₀ := debugged debugging (lit "detected " ++ text ++ []) d.next
      if isExempted cf a then .ok () (debugged debugging ([] ++ text ++ lit " is exempted") d₀)
      else if (d.dataOf a).blocked then .ok () d₀
      else
        let d₁ := d₀.update a ⟨timesOf cf a d, false⟩
        if cf.rateMax < (timesOf cf a d).length then
          match HostDaemon.blockAddress debugging cf a (d.future 0).outcomes d₁ with
          | .error stop d₂ => .error stop d₂
          | .ok false d₂ => .ok () d₂
          | .ok true d₂ => .ok () (d₂.update a ⟨timesOf cf a d, true⟩)
        else .ok () d₁ := by
  have hdata : (debugged debugging (lit "detected " ++ text ++ []) d.next).dataOf a =
      d.dataOf a := by
    cases debugging <;> rfl
  rw [detectedAddress_eq_judge debugging cf h]
  dsimp only
  -- The log does not matter from here on.
  generalize debugged debugging (lit "detected " ++ text ++ []) d.next = d₀ at hdata ⊢
  unfold judge
  by_cases hexempt : isExempted cf a = true
  · rw [if_pos hexempt, if_pos hexempt]
    cases debugging with
    | false => rfl
    | true => exact logAbout_eq h .debug [] (lit " is exempted") d₀
  · rw [if_neg hexempt, if_neg hexempt]
    show (if (d₀.dataOf a).blocked = true then pure () else _ :
      EStateM Stop HostDaemon Unit) d₀ = _
    rw [hdata]
    by_cases hblocked : (d.dataOf a).blocked = true
    · rw [if_pos hblocked, if_pos hblocked]
      rfl
    · rw [if_neg hblocked, if_neg hblocked]
      have hopen : (d.dataOf a).blocked = false := by simpa using hblocked
      rw [hopen]
      show (if cf.rateMax < (timesOf cf a d).length then _ else pure () :
        EStateM Stop HostDaemon Unit) (d₀.update a ⟨timesOf cf a d, false⟩) = _
      by_cases hrate : cf.rateMax < (timesOf cf a d).length
      · rw [if_pos hrate, if_pos hrate]
        cases hrun : HostDaemon.blockAddress debugging cf a (d.future 0).outcomes
            (d₀.update a ⟨timesOf cf a d, false⟩) with
        | error stop d₂ => rw [bind_of_error hrun]
        | ok blocked d₂ =>
          rw [bind_of_ok hrun]
          cases blocked <;> rfl
      · rw [if_neg hrate, if_neg hrate]
        rfl

end

/-! ### Attempts that fail -/

section
variable [Libc] [InetNtop] (debugging : Bool)

variable {debugging} {cf : ConfFile} {a : Address} {d d' : HostDaemon}

end

/-- The disk is full when the line is written to `hosts.deny`. -/
def diskFull : BlockOutcomes :=
  { execute := ⟨.ok (3, 4), .error .EAGAIN, fun _ => .ok (), [], [], 0⟩
    append := ⟨.ok (), .ok (), .error (.other 28), 3⟩ }

/-- The store that the detections of `Blockad.Model.BlockingWatcher` see, when `block` ends with
`result`. -/
def view (result : Except Exn Bool) (d : HostDaemon) : Store :=
  ⟨d.addressData, d.blockCalls, fun n => ⟨(d.future n).now, result⟩⟩

/-- A debug line is not seen in the store. -/
theorem view_debugged (result : Except Exn Bool) (debugging : Bool) (line : Bytes)
    (d : HostDaemon) : view result (debugged debugging line d) = view result d := by
  cases debugging <;> rfl

/-- A call of a block method is one call in the store. -/
theorem view_of_called {result : Except Exn Bool} {a : Address} {d d' : HostDaemon}
    (h : Called d a d') : view result d' = Store.called (view result d) a := by
  unfold view
  rw [h.addressData, h.blockCalls, h.future]
  rfl

/-- **The detections are those of the model without a log**, with a result that `block` had. -/
theorem detectedAddress_refines [Libc] [InetNtop] (law : LawfulNtop) (debugging : Bool)
    (cf : ConfFile) (a : Address) (d : HostDaemon) :
    Ends (fun _ d' => ∃ result, (BlockingWatcher.detectedAddress cf a).run (view result d) =
        .ok () (view result d') ∧
        (d'.blockCalls = d.blockCalls ∨ ∃ blocked m m', result = .ok blocked ∧
          BlockMethod.block debugging (d.future 0).outcomes a cf.block m = .ok blocked m'))
      (fun stop d' => ∀ e, stop = .thrown e →
        (BlockingWatcher.detectedAddress cf a).run (view (.error e) d) =
          .error (.thrown e) (view (.error e) d'))
      (HostDaemon.detectedAddress debugging cf a d) := by
  obtain ⟨_, _, _, text, h⟩ := exists_texts law a
  have hstore : ∀ result, (view result d).dataOf a = d.dataOf a := fun _ => rfl
  have htimes : ∀ result, recordTime (d.dataOf a).times ((view result d).future 0).now
      cf.rateInterval = timesOf cf a d := fun _ => rfl
  let d₁ := (debugged debugging (lit "detected " ++ text ++ []) d.next).update a
    ⟨timesOf cf a d, false⟩
  have hview₁ : ∀ result, view result d₁ =
      (view result d).next.update a ⟨timesOf cf a d, false⟩ := by
    intro result
    show (view result (debugged debugging _ d.next)).update a _ = _
    rw [view_debugged]
    rfl
  simp only [detectedAddress_run, hstore, htimes]
  rw [daemon_detectedAddress_run debugging cf h]
  dsimp only
  by_cases hexempt : isExempted cf a = true
  · simp only [if_pos hexempt]
    refine ⟨.ok false, ?_, .inl ?_⟩
    · rw [view_debugged, view_debugged]
      rfl
    · rw [blockCalls_debugged, blockCalls_debugged]
      rfl
  simp only [if_neg hexempt]
  by_cases hblocked : (d.dataOf a).blocked = true
  · simp only [if_pos hblocked]
    refine ⟨.ok false, ?_, .inl ?_⟩
    · rw [view_debugged]
      rfl
    · rw [blockCalls_debugged]
      rfl
  simp only [if_neg hblocked]
  by_cases hrate : cf.rateMax < (timesOf cf a d).length
  · simp only [if_pos hrate]
    have hends := blockAddress_ends debugging cf h (d.future 0).outcomes d₁
    cases hrun : HostDaemon.blockAddress debugging cf a (d.future 0).outcomes d₁ with
    | error stop d₂ =>
      obtain ⟨hcalled, -⟩ := hends.error hrun
      intro e _
      rw [view_of_called hcalled, hview₁]
      rfl
    | ok blocked d₂ =>
      obtain ⟨hcalled, ⟨m, m', hblock⟩, -⟩ := hends.ok hrun
      cases blocked with
      | false =>
        refine ⟨.ok false, ?_, .inr ⟨false, m, m', rfl, hblock⟩⟩
        rw [view_of_called hcalled, hview₁]
        rfl
      | true =>
        refine ⟨.ok true, ?_, .inr ⟨true, m, m', rfl, hblock⟩⟩
        show _ = EStateM.Result.ok () ((view (.ok true) d₂).update a _)
        rw [view_of_called hcalled, hview₁]
        rfl
  · simp only [if_neg hrate]
    refine ⟨.ok false, ?_, .inl (blockCalls_debugged debugging _ d.next)⟩
    show _ = EStateM.Result.ok () (view (.ok false) d₁)
    rw [hview₁]

end Blockad.Proofs
