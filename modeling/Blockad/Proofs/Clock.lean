import Blockad.Proofs.Isolation

/-!
# `Blockad.Proofs.Clock`: what a clock that steps back does to the detection times

`detectedAddress` prunes the times of an address at the front, as if they were in order. They are
as long as no reading of the clock is before one that was recorded. After a step back, an old time
can stand behind a newer one and outlast it.

* `inOrder_of_reachable`: in every run without a step back, the times of all addresses are in
  order.
* `no_stale_evidence`: no time older than the interval is counted in these runs. In any run, the
  addresses whose times are in order are those that are safe whatever comes next.
* `not_no_stale_evidence`: a time of the step back is counted an interval later.
-/

set_option autoImplicit false

namespace Blockad.Proofs

open BlockingWatcher Keyed Prog Runs Window

variable [Libc]

/-! ### Evidence -/

/-- The times that are compared with `rate_max` when `a` is detected now. -/
def Journal.evidence (s : Journal) (a : Address) : List Int :=
  recordTime (s.store.dataOf a).times (s.store.future 0).now s.config.rateInterval

/-- If the next detection of `a` calls `block`, then on the strength of times inside the interval
only. -/
def Journal.Fresh (s : Journal) (a : Address) : Prop :=
  CallsBlock s.config a s.store →
    ∀ t ∈ s.evidence a, (s.store.future 0).now - s.config.rateInterval ≤ t

/-- The journal, with another configuration in force and another next attempt. -/
def Journal.facing (s : Journal) (cf : ConfFile) (attempt : Attempt) : Journal :=
  { s with config := cf, store := { s.store with future := fun _ => attempt } }

/-- The times of the address are in order. -/
def InOrder (s : Journal) (a : Address) : Prop := (s.store.dataOf a).times.Pairwise (· ≤ ·)

/-- The clock of a detection that counts is not before a time that is recorded. -/
def Onward (s : Journal) : Journal.Event → Prop
  | .detected a => isExempted s.config a = false → (s.store.dataOf a).blocked = false →
      ∀ t ∈ (s.store.dataOf a).times, t ≤ (s.store.future 0).now
  | .reloaded _ => True

/-! ### Runs -/

omit [Libc] in
/-- A clock that does not go back keeps the times in order. -/
theorem pairwise_recordTime {times : List Int} {now : Int} {interval : Nat}
    (h : times.Pairwise (· ≤ ·)) (hnow : ∀ t ∈ times, t ≤ now) :
    (recordTime times now interval).Pairwise (· ≤ ·) := by
  unfold recordTime
  rw [List.pairwise_append]
  refine ⟨h.sublist (List.dropWhile_sublist _), List.pairwise_singleton _ _, ?_⟩
  intro t ht t' ht'
  rw [List.mem_singleton.mp ht']
  exact hnow t ((List.dropWhile_sublist _).mem ht)

/-- One detection keeps the times in order. -/
theorem pairwise_count {ad : AddressData} {d : Detection} (h : ad.times.Pairwise (· ≤ ·))
    (honward : isExempted d.config d.address = false → ad.blocked = false →
      ∀ t ∈ ad.times, t ≤ d.attempt.now) :
    (count ad d).1.times.Pairwise (· ≤ ·) := by
  unfold count
  by_cases hskip : (isExempted d.config d.address || ad.blocked) = true
  · rw [if_pos hskip]
    exact h
  · rw [if_neg hskip]
    obtain ⟨hexempt, hblocked⟩ := Bool.or_eq_false_iff.mp (Bool.eq_false_iff.mpr hskip)
    have hrecord : (recordTime ad.times d.attempt.now d.config.rateInterval).Pairwise (· ≤ ·) :=
      pairwise_recordTime h (honward hexempt hblocked)
    dsimp only
    split
    · exact hrecord
    · exact hrecord

/-- **The step lemma.** -/
theorem inOrder_step {s s' : Journal} {e : Journal.Event} (hs : ∀ a, InOrder s a)
    (h : Guarded Journal.Step Onward s e s') : ∀ a, InOrder s' a := by
  obtain ⟨honward, hstep⟩ := h
  cases hstep with
  | reloaded cf => exact hs
  | detected b =>
    intro a
    obtain ⟨-, -, hdata, -⟩ := detect_eq s b
    unfold InOrder
    rw [hdata]
    dsimp only [product]
    by_cases hab : a = b
    · subst hab
      rw [Function.update_self]
      exact pairwise_count (hs a) honward
    · rw [Function.update_of_ne hab]
      exact hs a

/-- The run lemma. -/
theorem inOrder_of_reachable {s : Journal}
    (h : Reachable Journal.Started (Guarded Journal.Step Onward) s) (a : Address) :
    InOrder s a := by
  have hstart (s : Journal) (hs : Journal.Started s) (a : Address) : InOrder s a := by
    have hnew : s.store.dataOf a = {} := by simp [Store.dataOf, hs.addressData]
    rw [InOrder, hnew]
    exact .nil
  exact @Reachable.invariant _ _ _ _ (fun s => ∀ a, InOrder s a) s h hstart
    (fun _ _ _ => inOrder_step) a

/-! ### What is counted -/

/-- Times in order are pruned right, whatever the clock says. -/
theorem fresh_of_inOrder {s : Journal} {a : Address} (h : InOrder s a) : s.Fresh a := by
  intro _ t ht
  unfold Journal.evidence recordTime at ht
  rcases List.mem_append.mp ht with ht | ht
  · exact le_of_mem_dropWhile_lt h ht
  · rw [List.mem_singleton.mp ht]
    omega

/-- A configuration that blocks at the second detection. -/
def impatient (cf : ConfFile) : ConfFile := { cf with exempted := [], rateMax := 1 }

/-- Times that are not in order can be counted when they are too old. -/
theorem exists_not_fresh {s : Journal} {a : Address} (hblocked : (s.store.dataOf a).blocked = false)
    (h : ¬ InOrder s a) : ∃ cf attempt, ¬ (s.facing cf attempt).Fresh a := by
  -- The bound is one that the front of the times meets, and a time behind it does not.
  obtain ⟨bound, t, ht, hlt⟩ := exists_mem_dropWhile_lt h
  let cf := impatient s.config
  let attempt : Attempt := ⟨bound + cf.rateInterval, .ok false⟩
  have hbound : attempt.now - cf.rateInterval = bound := by
    show bound + (cf.rateInterval : Int) - cf.rateInterval = bound
    omega
  have hevidence : (s.facing cf attempt).evidence a =
      (s.store.dataOf a).times.dropWhile (· < bound) ++ [attempt.now] := by
    show recordTime (s.store.dataOf a).times attempt.now cf.rateInterval = _
    rw [recordTime, hbound]
  have hexempt : isExempted cf a = false := rfl
  -- The old time and the new one are two, which is over the rate.
  have hcalls : CallsBlock cf a (s.facing cf attempt).store := by
    refine (callsBlock_iff (s := (s.facing cf attempt).store) hexempt hblocked).mpr ?_
    show 1 < ((s.facing cf attempt).evidence a).length
    rw [hevidence, List.length_append, List.length_singleton]
    have hpos := List.length_pos_of_mem ht
    omega
  refine ⟨cf, attempt, fun hfresh => ?_⟩
  have hle := hfresh hcalls t (by rw [hevidence]; exact List.mem_append_left _ ht)
  have hold : bound ≤ t := by
    rw [← hbound]
    exact hle
  omega

omit [Libc] in
/-- A time that is not too old is not pruned. -/
theorem mem_dropWhile_of_le {times : List Int} {t bound : Int} (ht : t ∈ times) (hle : bound ≤ t) :
    t ∈ times.dropWhile (· < bound) := by
  rw [← List.takeWhile_append_dropWhile (p := (· < bound)) (l := times)] at ht
  rcases List.mem_append.mp ht with ht | ht
  · have hlt : t < bound := by simpa using List.mem_takeWhile_imp ht
    omega
  · exact ht

/-- A step back leaves the times out of order. -/
theorem not_inOrder_of_detect {s : Journal} {a : Address} (h : ¬ Onward s (.detected a)) :
    ¬ InOrder (s.detect a) a := by
  unfold Onward at h
  push Not at h
  obtain ⟨hexempt, hblocked, t, ht, hlt⟩ := h
  obtain ⟨-, -, hdata, -⟩ := detect_eq s a
  have htimes : ((s.detect a).store.dataOf a).times = s.evidence a := by
    rw [hdata]
    dsimp only [product, count]
    rw [Function.update_self, hexempt, hblocked]
    simp only [Bool.or_self, Bool.false_eq_true, if_false]
    split
    · rfl
    · rfl
  unfold InOrder
  rw [htimes]
  unfold Journal.evidence recordTime
  rw [List.pairwise_append]
  rintro ⟨-, -, horder⟩
  -- The recorded time is after the new one, so it is not too old for it.
  have hkept : t ∈ (s.store.dataOf a).times.dropWhile
      (· < (s.store.future 0).now - s.config.rateInterval) :=
    mem_dropWhile_of_le ht (by omega)
  have hle := horder t hkept _ (List.mem_singleton_self _)
  omega

/-- **No stale evidence, as long as the clock does not step back.** -/
theorem no_stale_evidence :
    (∀ s, Reachable Journal.Started (Guarded Journal.Step Onward) s → ∀ a, s.Fresh a) ∧
    -- in any state, exactly the addresses with times in order are safe from now on
    (∀ (s : Journal) a, (s.store.dataOf a).blocked = false →
      ((∀ cf attempt, (s.facing cf attempt).Fresh a) ↔ InOrder s a)) ∧
    -- so that no address is safe after a step back, unless it is blocked
    ∀ (s : Journal) a, ¬ Onward s (.detected a) →
      ((s.detect a).store.dataOf a).blocked = false →
        ∃ cf attempt, ¬ ((s.detect a).facing cf attempt).Fresh a := by
  refine ⟨fun s h a => fresh_of_inOrder (inOrder_of_reachable h a), ?_, ?_⟩
  · intro s a hblocked
    constructor
    · intro hfresh
      by_contra hnot
      obtain ⟨cf, attempt, hstale⟩ := exists_not_fresh hblocked hnot
      exact hstale (hfresh cf attempt)
    · intro horder cf attempt
      exact fresh_of_inOrder (s := s.facing cf attempt) horder
  · intro s a hback hblocked
    exact exists_not_fresh hblocked (not_inOrder_of_detect hback)

/-! ### A step back -/

section
omit [Libc]

/-- 192.0.2.1. -/
def host : Address := ⟨mapped4 (Vector.ofFn fun i => [192, 0, 2, 1].getD i 0)⟩

/-- A daemon that blocks at a rate of 2 an hour, with the readings of its clock. -/
def clocked (readings : Nat → Int) : @Journal Libc.noMatch :=
  letI := Libc.noMatch
  { config := { ConfFile.initial (Bytes.lit "blockad.conf") with rateMax := 2 }
    store := { addressData := ∅, blockCalls := [], future := fun n => ⟨readings n, .ok true⟩ }
    running := true
    detections := []
    calls := [] }

/-- Three detections, one second after the other. -/
theorem no_stale_evidence_clocked :
    letI := Libc.noMatch
    let s := ((clocked fun n => n).detect host).detect host
    s.Fresh host := by
  let _ := Libc.noMatch
  have hstart : Journal.Started (clocked fun n => n) := ⟨rfl, rfl, rfl, rfl⟩
  refine no_stale_evidence.1 _ (.next (.detected host) (.next (.detected host) (.start hstart)
    ⟨?_, .detected host rfl⟩) ⟨?_, .detected host rfl⟩) host
  · intro _ _ t ht
    cases ht
  · intro _ _ t ht
    rw [show t = 0 from List.mem_singleton.mp ht]
    decide

/-- The clock steps back from 4000 to 3900. At 7600, after an hour from 4000 on, the time 3900 is
counted: with it, three times exceed the rate. -/
theorem not_no_stale_evidence :
    letI := Libc.noMatch
    let s := ((clocked fun n => [4000, 3900, 7600].getD n 7600).detect host).detect host
    Reachable Journal.Started Journal.Step s ∧ CallsBlock s.config host s.store ∧
      s.evidence host = [4000, 3900, 7600] ∧
      (s.store.future 0).now - s.config.rateInterval = 4000 := by
  let _ := Libc.noMatch
  have hstart : Journal.Started (clocked fun n => [4000, 3900, 7600].getD n 7600) :=
    ⟨rfl, rfl, rfl, rfl⟩
  exact ⟨.next _ (.next _ (.start hstart) (.detected _ rfl)) (.detected _ rfl), rfl, rfl, rfl⟩

end

end Blockad.Proofs
