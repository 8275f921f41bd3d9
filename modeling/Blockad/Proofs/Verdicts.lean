import Blockad.Proofs.Evidence
import Mathlib.Data.List.Induction

/-!
# `Blockad.Proofs.Verdicts`: the daemon blocks exactly on the evidence

`Blockad.Proofs.Evidence` says that there is evidence for each address that is blocked. Here is the
converse with the exact bound. The times that `detectedAddress` keeps are pruned, and it does not
look at an address any more when it is blocked; neither loses a verdict.

* `covers_of_open`: while an address is not blocked, its times are the evidence in the window.
* `run_calls_iff`: a machine calls `block` exactly if the evidence is too much at some time.
* `blocked_iff_evidence`: in every run of the daemon, `block` is called for an address exactly if
  the recorded lines capture it too often within the interval, at some time.
-/

set_option autoImplicit false

namespace Blockad.Proofs

open BlockingWatcher Bytes Keyed Prog Runs Window

section
variable [Libc]

/-! ### The evidence -/

/-- The detections of the captured addresses, one for each attempt. -/
def detectionsAt (future : Nat → Attempt) : List (ConfFile × Address) → List Detection
  | [] => []
  | (cf, a) :: keys => ⟨cf, a, future 0⟩ :: detectionsAt (fun n => future (n + 1)) keys

/-- How many detections count for the address of the last one, at its time. -/
def recentEvidence (ds : List Detection) (d : Detection) : Nat :=
  ds.countP fun e => e.address = d.address && !isExempted e.config e.address &&
    decide (d.attempt.now - d.config.rateInterval ≤ e.attempt.now)

/-- The last detection is one too many. -/
structure TooMany (before : List Detection) (d : Detection) : Prop where
  counted : isExempted d.config d.address = false
  rate : d.config.rateMax < recentEvidence (before ++ [d]) d

/-- The clock does not go back from one detection to the other, and the interval is not made
longer. -/
structure Onwards (d d' : Detection) : Prop where
  clock : d.attempt.now ≤ d'.attempt.now
  interval : d'.config.rateInterval ≤ d.config.rateInterval

/-! ### The machine of one address -/

/-- The times of the detections that count. -/
def countedTimes (ds : List Detection) : List Int :=
  (ds.filter fun d => !isExempted d.config d.address).map (·.attempt.now)

/-- The times of two lists are those of the first, and then those of the second. -/
theorem countedTimes_append (ds ds' : List Detection) :
    countedTimes (ds ++ ds') = countedTimes ds ++ countedTimes ds' := by
  simp [countedTimes]

/-- A blocked address is not counted. -/
theorem count_of_blocked {ad : AddressData} (h : ad.blocked = true) (d : Detection) :
    count ad d = (ad, []) := by
  rw [count, h, Bool.or_true, if_pos rfl]

/-- An exempted address is not counted. -/
theorem count_of_exempted {d : Detection} (h : isExempted d.config d.address = true)
    (ad : AddressData) : count ad d = (ad, []) := by
  rw [count, h, Bool.true_or, if_pos rfl]

/-- A detection that counts. -/
theorem count_of_counted {ad : AddressData} {d : Detection}
    (h : isExempted d.config d.address = false) (hopen : ad.blocked = false) :
    (count ad d).1.times = recordTime ad.times d.attempt.now d.config.rateInterval ∧
      ((count ad d).2 ≠ [] ↔ d.config.rateMax <
        (recordTime ad.times d.attempt.now d.config.rateInterval).length) := by
  unfold count
  rw [h, hopen, Bool.or_false, if_neg (by decide)]
  dsimp only
  split
  · exact ⟨rfl, iff_of_true (List.cons_ne_nil d []) ‹_›⟩
  · exact ⟨rfl, iff_of_false (fun hcalls => hcalls rfl) ‹_›⟩

/-- Only a call of `block` blocks an address. -/
theorem calls_of_count_blocked {ad : AddressData} {d : Detection} (hopen : ad.blocked = false)
    (h : (count ad d).1.blocked = true) : (count ad d).2 ≠ [] := by
  unfold count at h ⊢
  split at h
  · rw [hopen] at h
    cases h
  · rw [if_neg ‹_›]
    dsimp only at h ⊢
    split at h
    · rw [if_pos ‹_›]
      exact List.cons_ne_nil d []
    · cases h

/-- **The times are the evidence in the window**, for each window that a later detection can
have. -/
theorem covers_of_open {ds : List Detection} {latest bound : Int} (hord : ds.Pairwise Onwards)
    (hopen : (count.run {} ds).1.blocked = false)
    (hlast : ∀ d ∈ ds, d.attempt.now ≤ latest ∧
      d.attempt.now - d.config.rateInterval ≤ bound) :
    Covers (countedTimes ds) (count.run {} ds).1.times latest bound := by
  induction ds using List.reverseRecOn generalizing latest bound with
  | nil => exact .nil
  | append_singleton ds d ih =>
    rw [Machine.run_concat] at hopen ⊢
    obtain ⟨hord, -, hnext⟩ := List.pairwise_append.mp hord
    have hopen' : (count.run {} ds).1.blocked = false := by
      by_contra hblocked
      rw [Bool.not_eq_false] at hblocked
      rw [count_of_blocked hblocked] at hopen
      rw [hblocked] at hopen
      cases hopen
    obtain ⟨hlatest, hbound⟩ := hlast d (by simp)
    rw [countedTimes_append]
    cases hexempt : isExempted d.config d.address with
    | true =>
      have hnone : countedTimes [d] = [] := by simp [countedTimes, hexempt]
      rw [count_of_exempted hexempt, hnone, List.append_nil]
      exact ih hord hopen' fun e he => hlast e (List.mem_append_left _ he)
    | false =>
      have hone : countedTimes [d] = [d.attempt.now] := by simp [countedTimes, hexempt]
      rw [(count_of_counted hexempt hopen').1, hone]
      -- The window of this detection starts after those of the earlier ones.
      have hcovers : Covers (countedTimes ds) (count.run {} ds).1.times d.attempt.now
          (d.attempt.now - d.config.rateInterval) := by
        refine ih hord hopen' fun e he => ?_
        obtain ⟨hclock, hinterval⟩ := hnext e he d (List.mem_singleton_self d)
        exact ⟨hclock, by omega⟩
      exact hcovers.push.mono hlatest hbound

/-- A machine that is blocked has called `block`. -/
theorem calls_of_blocked {ds : List Detection} (h : (count.run {} ds).1.blocked = true) :
    (count.run {} ds).2 ≠ [] := by
  induction ds using List.reverseRecOn with
  | nil => cases h
  | append_singleton ds d ih =>
    rw [Machine.run_concat] at h ⊢
    cases hblocked : (count.run {} ds).1.blocked with
    | true => exact List.append_ne_nil_of_left_ne_nil (ih hblocked) _
    | false => exact List.append_ne_nil_of_right_ne_nil _ (calls_of_count_blocked hblocked h)

/-- The evidence, by the times of the address. -/
theorem recentEvidence_eq (ds : List Detection) {a : Address} {d : Detection} (ha : d.address = a)
    (hexempt : isExempted d.config d.address = false) :
    recentEvidence (ds ++ [d]) d =
      (countedTimes (ds.filter (·.address = a)) ++ [d.attempt.now]).countP
        (d.attempt.now - d.config.rateInterval ≤ ·) := by
  have hlast : countedTimes [d] = [d.attempt.now] := by simp [countedTimes, hexempt]
  have hown : [d] = [d].filter (·.address = a) := by simp [ha]
  rw [← hlast, hown, ← countedTimes_append, ← List.filter_append, ← hown]
  unfold recentEvidence countedTimes
  rw [List.countP_map, List.countP_filter, List.countP_filter, ha]
  refine List.countP_congr fun e _ => ?_
  simp only [Function.comp_apply, Bool.and_eq_true, decide_eq_true_eq]
  tauto

/-- The machine of an address calls `block` at a detection exactly if it is one too many. -/
theorem count_calls_iff {ds : List Detection} {d : Detection} {a : Address} (ha : d.address = a)
    (hord : ds.Pairwise Onwards) (hnext : ∀ e ∈ ds, Onwards e d)
    (hopen : (count.run {} (ds.filter (·.address = a))).1.blocked = false) :
    (count (count.run {} (ds.filter (·.address = a))).1 d).2 ≠ [] ↔ TooMany ds d := by
  cases hexempt : isExempted d.config d.address with
  | true =>
    rw [count_of_exempted hexempt]
    refine iff_of_false (fun hcalls => hcalls rfl) fun hmany => ?_
    rw [hmany.counted] at hexempt
    cases hexempt
  | false =>
    have hcovers : Covers (countedTimes (ds.filter (·.address = a)))
        (count.run {} (ds.filter (·.address = a))).1.times d.attempt.now
        (d.attempt.now - d.config.rateInterval) := by
      refine covers_of_open (hord.filter _) hopen fun e he => ?_
      obtain ⟨hclock, hinterval⟩ := hnext e (List.mem_of_mem_filter he)
      exact ⟨hclock, by omega⟩
    have hlength : (recordTime (count.run {} (ds.filter (·.address = a))).1.times d.attempt.now
        d.config.rateInterval).length = recentEvidence (ds ++ [d]) d := by
      rw [recentEvidence_eq ds ha hexempt]
      exact hcovers.length_push (by omega)
    rw [(count_of_counted hexempt hopen).2, hlength]
    exact ⟨fun hrate => ⟨hexempt, hrate⟩, fun hmany => hmany.rate⟩

/-- **The calls of one address.** -/
theorem run_calls_iff {ds : List Detection} (hord : ds.Pairwise Onwards) (a : Address) :
    (count.run {} (ds.filter (·.address = a))).2 ≠ [] ↔
      ∃ before d, before ++ [d] <+: ds ∧ d.address = a ∧ TooMany before d := by
  induction ds using List.reverseRecOn with
  | nil => simp [Machine.run]
  | append_singleton ds d ih =>
    obtain ⟨hord', -, hnext⟩ := List.pairwise_append.mp hord
    have ih := ih hord'
    have hsplit : (∃ before e, before ++ [e] <+: ds ++ [d] ∧ e.address = a ∧ TooMany before e) ↔
        d.address = a ∧ TooMany ds d ∨
          ∃ before e, before ++ [e] <+: ds ∧ e.address = a ∧ TooMany before e := by
      simp only [List.prefix_concat_iff]
      constructor
      · rintro ⟨before, e, hsame | hbefore, ha, hmany⟩
        · obtain ⟨rfl, he⟩ := List.append_inj' hsame rfl
          cases he
          exact .inl ⟨ha, hmany⟩
        · exact .inr ⟨before, e, hbefore, ha, hmany⟩
      · rintro (⟨ha, hmany⟩ | ⟨before, e, hbefore, ha, hmany⟩)
        · exact ⟨ds, d, .inl rfl, ha, hmany⟩
        · exact ⟨before, e, .inr hbefore, ha, hmany⟩
    rw [hsplit, List.filter_append]
    by_cases ha : d.address = a
    · have hown : [d].filter (·.address = a) = [d] := by simp [ha]
      rw [hown, Machine.run_concat, ← ih]
      cases hblocked : (count.run {} (ds.filter (·.address = a))).1.blocked with
      | true =>
        -- The verdict came earlier.
        have hcalls := calls_of_blocked hblocked
        exact iff_of_true (List.append_ne_nil_of_left_ne_nil hcalls _) (.inr hcalls)
      | false =>
        have hnext' : ∀ e ∈ ds, Onwards e d := fun e he => hnext e he d (List.mem_singleton_self d)
        rw [← count_calls_iff ha hord' hnext' hblocked]
        simp only [ne_eq, List.append_eq_nil_iff, not_and_or, ha, true_and]
        tauto
    · have hother : [d].filter (·.address = a) = [] := by simp [ha]
      rw [hother, List.append_nil, ih]
      simp [ha]

/-! ### Runs of detections -/

/-- The next detection gets the next attempt. -/
theorem detectionsAt_append (future : Nat → Attempt) (keys : List (ConfFile × Address))
    (key : ConfFile × Address) :
    detectionsAt future (keys ++ [key]) =
      detectionsAt future keys ++ [⟨key.1, key.2, future keys.length⟩] := by
  induction keys generalizing future with
  | nil => rfl
  | cons key' keys ih =>
    obtain ⟨cf, a⟩ := key'
    rw [List.cons_append, detectionsAt, ih]
    rfl

/-- Every detection has an attempt and a key. -/
theorem exists_of_mem_detectionsAt {future : Nat → Attempt}
    {keys : List (ConfFile × Address)} {d : Detection} (h : d ∈ detectionsAt future keys) :
    ∃ n, d.attempt = future n ∧ ∃ key ∈ keys, d.config = key.1 := by
  induction keys generalizing future with
  | nil => cases h
  | cons key keys ih =>
    rcases List.mem_cons.mp h with rfl | h
    · exact ⟨0, rfl, key, List.mem_cons_self, rfl⟩
    · obtain ⟨n, hattempt, key', hkey', hconfig⟩ := ih h
      exact ⟨n + 1, hattempt, key', List.mem_cons_of_mem key hkey', hconfig⟩

/-- The detections are in the order of the attempts. -/
theorem pairwise_detectionsAt {future : Nat → Attempt} {keys : List (ConfFile × Address)}
    (hclock : ∀ n, (future n).now ≤ (future (n + 1)).now)
    (hinterval : keys.Pairwise fun key later => later.1.rateInterval ≤ key.1.rateInterval) :
    (detectionsAt future keys).Pairwise Onwards := by
  induction keys generalizing future with
  | nil => exact .nil
  | cons key keys ih =>
    obtain ⟨hfirst, hinterval⟩ := List.pairwise_cons.mp hinterval
    refine List.pairwise_cons.mpr ⟨fun d hd => ?_, ih (fun n => hclock (n + 1)) hinterval⟩
    obtain ⟨n, hattempt, key', hkey', hconfig⟩ := exists_of_mem_detectionsAt hd
    refine ⟨?_, ?_⟩
    · rw [hattempt]
      exact monotone_nat_of_le_succ hclock (Nat.zero_le (n + 1))
    · rw [hconfig]
      exact hfirst key' hkey'

/-- The detections of a run take the attempts one after the other. -/
def Traced (first : Store) (j : Journal) : Prop :=
  j.detections = detectionsAt first.future (j.detections.map Detection.key) ∧
    ∀ n, j.store.future n = first.future (n + j.detections.length)

/-- **One step.** The journal has one more detection. -/
theorem traced_step {first : Store} {j j' : Journal} {e : Journal.Event} (hj : Traced first j)
    (h : Journal.Step j e j') : Traced first j' := by
  cases h with
  | reloaded cf => exact hj
  | detected a =>
    obtain ⟨hdetections, hfuture⟩ := hj
    have hlast : (j.detect a).detections = j.detections ++ [⟨j.config, a, j.store.future 0⟩] := rfl
    refine ⟨?_, fun n => ?_⟩
    · rw [hlast, List.map_append, List.map_singleton, detectionsAt_append, ← hdetections,
        List.length_map, hfuture 0, Nat.zero_add]
      rfl
    · rw [(detect_eq j a).2.1, hlast, List.length_append, List.length_singleton]
      show j.store.future (n + 1) = _
      rw [hfuture]
      congr 1
      omega

/-- **In every state** that is reached. -/
theorem traced_of_reachable {first : Store} {j : Journal}
    (h : Reachable (fun j => Journal.Started j ∧ j.store = first) Journal.Step j) :
    Traced first j := by
  refine h.invariant ?_ fun _ _ _ => traced_step
  rintro j ⟨hstart, rfl⟩
  unfold Traced
  rw [hstart.detections]
  exact ⟨rfl, fun n => rfl⟩

/-- **The calls of a run.** -/
theorem journal_calls_iff {j : Journal} (h : Reachable Journal.Started Journal.Step j)
    (hord : j.detections.Pairwise Onwards) (a : Address) :
    a ∈ j.calls.map Detection.address ↔
      ∃ before d, before ++ [d] <+: j.detections ∧ d.address = a ∧ TooMany before d := by
  have hcalls : a ∈ j.calls.map Detection.address ↔ j.callsOf a ≠ [] := by
    rw [Journal.callsOf, ne_eq, List.filter_eq_nil_iff]
    simp
  rw [hcalls, (journal_simulates h a).2]
  exact run_calls_iff hord a

/-! ### The daemon -/

/-- A capture belongs to the configuration of its line. -/
theorem config_of_mem_captures {entry : ConfFile × Bytes} {key : ConfFile × Address}
    (h : key ∈ captures entry) : key.1 = entry.1 := by
  obtain ⟨a, -, rfl⟩ := List.mem_map.mp h
  rfl

/-- The captures are in the order of the lines. -/
theorem pairwise_captures {lines : List (ConfFile × Bytes)}
    (h : lines.Pairwise fun entry later => later.1.rateInterval ≤ entry.1.rateInterval) :
    (lines.flatMap captures).Pairwise fun key later =>
      later.1.rateInterval ≤ key.1.rateInterval := by
  refine List.pairwise_flatMap.mpr ⟨fun entry _ => ?_, h.imp fun {entry later} hle => ?_⟩
  · refine List.pairwise_of_forall_mem_list fun key hkey key' hkey' => ?_
    rw [config_of_mem_captures hkey, config_of_mem_captures hkey']
  · intro key hkey key' hkey'
    rw [config_of_mem_captures hkey, config_of_mem_captures hkey']
    exact hle

/-- The calls of `block`, from the store that the run of detections has started with. -/
theorem calls_iff_of_evident {H W : Type} {first : Store} {r : Recorder H W}
    (h : Evident first r) (hclock : ∀ n, (first.future n).now ≤ (first.future (n + 1)).now)
    (hinterval : r.lines.Pairwise fun entry later =>
      later.1.rateInterval ≤ entry.1.rateInterval) (a : Address) :
    a ∈ r.daemon.store.blockCalls ↔
      ∃ before d, before ++ [d] <+: detectionsAt first.future (r.lines.flatMap captures) ∧
        d.address = a ∧ TooMany before d := by
  obtain ⟨j, hj⟩ := h
  have hdetections := (traced_of_reachable hj.reachable).1
  rw [hj.detections] at hdetections
  rw [hj.calls_eq, ← hdetections]
  refine journal_calls_iff (hj.reachable.of_init fun _ => And.left) ?_ a
  rw [hdetections]
  exact pairwise_detectionsAt hclock (pairwise_captures hinterval)

/-- **The daemon blocks exactly on the evidence.** The clock does not go back, and no reload makes
the interval longer. Then `block` has been called for an address exactly if, at one of the captures
of the recorded lines, more captures of it counted within the interval than the configuration then
allowed. -/
theorem blocked_iff_evidence {H W : Type} {os : Syscalls H W} {conffile : Bytes} {capacity : Nat}
    {actions : List LoopAction} {s₀ s : MainLoop (Recorder H W)}
    (hstart : Recorder.Started conffile s₀)
    (hclock : ∀ n, (s₀.data.daemon.store.future n).now ≤
      (s₀.data.daemon.store.future (n + 1)).now)
    (h : Run (· = s₀) (MainLoop.Step capacity (Recorder.body os conffile)) actions s)
    (hrunning : s.point ≠ .exited)
    (hinterval : s.data.lines.Pairwise fun entry later =>
      later.1.rateInterval ≤ entry.1.rateInterval) (a : Address) :
    a ∈ s.data.daemon.store.blockCalls ↔
      ∃ before d, before ++ [d] <+:
          detectionsAt s₀.data.daemon.store.future (s.data.lines.flatMap captures) ∧
        d.address = a ∧ TooMany before d :=
  calls_iff_of_evident ((recordedAt_of_run hstart h).2 hrunning) hclock hinterval a

/-- The actions of one pass, recorded. -/
theorem run_recorded {H W : Type} {os : Syscalls H W} {conffile : Bytes} {capacity : Nat}
    {d₀ d₁ d₂ : Daemon H W} {r : Recorder H W} (hcreate : Daemon.create os d₀ = .ok () d₁)
    (hchange : d₂ = { d₁ with world := d₂.world })
    (hcheck : Recorder.check os (fun _ => true) ⟨d₂, []⟩ = .ok () r) :
    Run (· = (⟨.installed, false, 0, ⟨d₀, []⟩⟩ : MainLoop (Recorder H W)))
      (MainLoop.Step capacity (Recorder.body os conffile)) readActions
      ⟨.checked false, false, 0, r⟩ := by
  have hcreated : Recorder.onDaemon (Daemon.create os) ⟨d₀, []⟩ = .ok () ⟨d₁, []⟩ := by
    unfold Recorder.onDaemon
    rw [hcreate]
  have hchanged : (⟨d₂, []⟩ : Recorder H W) = ⟨{ d₁ with world := d₂.world }, []⟩ :=
    congrArg (Recorder.mk · []) hchange
  exact run_turn rfl hcreated hchanged hcheck

end

/-! ### Two lines -/

/-- The daemon that has read two lines, with the record of them. -/
def twoLinesRecorded : @Recorder wholeLine Handle Filesystem :=
  letI := wholeLine
  stateOf (Recorder.check (kernel (lit "/log") 1) (fun _ => true) ⟨twoLines, []⟩)

/-- The pass of the example. -/
theorem check_twoLinesRecorded :
    letI := wholeLine
    Recorder.check (kernel (lit "/log") 1) (fun _ => true) ⟨twoLines, []⟩ =
      .ok () twoLinesRecorded :=
  eq_ok_of_returned (by decide +kernel)

/-- `block` was called once in it. -/
theorem called_twoLinesRecorded :
    letI := wholeLine
    ⟨mapped4 #v[192, 0, 2, 1]⟩ ∈ twoLinesRecorded.daemon.store.blockCalls := by decide +kernel

/-- Its interval does not grow. -/
theorem interval_twoLinesRecorded :
    letI := wholeLine
    twoLinesRecorded.lines.Pairwise fun entry later =>
      later.1.rateInterval ≤ entry.1.rateInterval := by decide +kernel

/-- The run of the example. -/
theorem run_twoLinesRecorded :
    letI := wholeLine
    Run (· = (⟨.installed, false, 0, ⟨wholeLineDaemon, []⟩⟩ :
        MainLoop (Recorder Handle Filesystem)))
      (MainLoop.Step 65536 (Recorder.body (kernel (lit "/log") 1) (lit "blockad.conf")))
      readActions ⟨.checked false, false, 0, twoLinesRecorded⟩ :=
  letI := wholeLine
  run_recorded create_wholeLineDaemon rfl check_twoLinesRecorded

/-- The daemon of the example can start. -/
theorem started_wholeLineDaemon :
    letI := wholeLine
    Recorder.Started (lit "blockad.conf")
      (⟨.installed, false, 0, ⟨wholeLineDaemon, []⟩⟩ : MainLoop (Recorder Handle Filesystem)) := by
  let _ := wholeLine
  have hprepared : Prepared (lit "blockad.conf") wholeLineDaemon :=
    ⟨.ok (wholeLineText, none), fun n => ⟨n, .ok true⟩, construct_wholeLineText, rfl, rfl⟩
  exact ⟨⟨rfl, rfl⟩, hprepared, rfl⟩

/-- Its clock does not go back. -/
theorem clock_wholeLineDaemon (n : Nat) :
    letI := wholeLine
    (wholeLineDaemon.store.future n).now ≤ (wholeLineDaemon.store.future (n + 1)).now := by
  show (n : Int) ≤ (n + 1 : Nat)
  omega

/-- Two lines, and a rate of one. -/
theorem blocked_iff_evidence_twoLinesRecorded :
    letI := wholeLine
    ∃ before d, before ++ [d] <+: detectionsAt wholeLineDaemon.store.future
        (twoLinesRecorded.lines.flatMap captures) ∧
      d.address = ⟨mapped4 #v[192, 0, 2, 1]⟩ ∧ TooMany before d := by
  have hiff := @blocked_iff_evidence wholeLine _ _ _ _ _ _ _ _ started_wholeLineDaemon
    clock_wholeLineDaemon run_twoLinesRecorded nofun interval_twoLinesRecorded
    ⟨mapped4 #v[192, 0, 2, 1]⟩
  dsimp only at hiff
  exact hiff.mp called_twoLinesRecorded

end Blockad.Proofs
