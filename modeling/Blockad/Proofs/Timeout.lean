import Blockad.Lib.Prog
import Blockad.Model.Timeval

/-!
# `Blockad.Proofs.Timeout`: the wait for the next poll is exact

The main loop computes the timeout of `select` from the limit of the watchers, and compares the
time with their limits again after it. Both sides agree to the microsecond: the wait ends when
the first watcher is due, and not before.

* `micros_sub`, `normalised_sub`: the difference of two times.
* `waitLimit_le`, `exists_next_eq`: the limit is the earliest time of the watchers.
* `timeout_exact`: the timeout is the time until the limit, and a wait that runs out makes a
  watcher work.
-/

set_option autoImplicit false

namespace Blockad.Proofs

open Timeval

/-! ### Times -/

/-- The time in microseconds. -/
def micros (a : Timeval) : Int := a.sec * 1000000 + a.usec

/-- The microseconds are less than a second. -/
def Normalised (a : Timeval) : Prop := 0 ≤ a.usec ∧ a.usec < 1000000

variable {a b : Timeval}

/-- The borrow does not change the difference. -/
theorem micros_sub (a b : Timeval) : micros (sub a b) = micros a - micros b := by
  unfold Timeval.sub micros
  dsimp only
  split
  · dsimp only
    omega
  · dsimp only
    omega

/-- A borrow is enough. -/
theorem normalised_sub (ha : Normalised a) (hb : Normalised b) : Normalised (sub a b) := by
  obtain ⟨ha₀, ha₁⟩ := ha
  obtain ⟨hb₀, hb₁⟩ := hb
  unfold Timeval.sub
  dsimp only
  split
  · constructor
    · dsimp only
      omega
    · dsimp only
      omega
  · constructor
    · dsimp only
      omega
    · dsimp only
      omega

/-- Whole seconds. -/
theorem normalised_ofTime (t : Int) : Normalised ⟨t, 0⟩ := by
  constructor
  · show (0 : Int) ≤ 0
    omega
  · show (0 : Int) < 1000000
    omega

/-! ### Comparisons -/

/-- The microseconds do not count against whole seconds. -/
theorem ltTime_iff (ha : Normalised a) (t : Int) : a.ltTime t = true ↔ micros a < t * 1000000 := by
  obtain ⟨ha₀, ha₁⟩ := ha
  unfold Timeval.ltTime micros
  simp only [decide_eq_true_eq]
  omega

/-- The same for the test after `select`. -/
theorem geTime_iff (ha : Normalised a) (t : Int) : a.geTime t = true ↔ t * 1000000 ≤ micros a := by
  obtain ⟨ha₀, ha₁⟩ := ha
  unfold Timeval.geTime micros
  simp only [decide_eq_true_eq]
  omega

/-! ### The limit -/

section
variable {H : Type}

/-- The loop that lowers the limit. -/
theorem foldl_pollfd_le (watchers : List (PollingWatcher H)) (limit : Int) :
    watchers.foldl (fun limit w => (w.pollfd limit).2) limit ≤ limit ∧
      (∀ w ∈ watchers, watchers.foldl (fun limit w => (w.pollfd limit).2) limit ≤ w.own.next) ∧
      (watchers.foldl (fun limit w => (w.pollfd limit).2) limit = limit ∨
        ∃ w ∈ watchers, watchers.foldl (fun limit w => (w.pollfd limit).2) limit = w.own.next) := by
  induction watchers generalizing limit with
  | nil => exact ⟨Int.le_refl _, by simp, .inl rfl⟩
  | cons w watchers ih =>
    obtain ⟨hle, hall, hex⟩ := ih (w.pollfd limit).2
    have hlimit : (w.pollfd limit).2 ≤ limit ∧ (w.pollfd limit).2 ≤ w.own.next := by
      unfold PollingWatcher.pollfd
      dsimp only
      split
      · omega
      · omega
    rw [List.foldl_cons]
    refine ⟨Int.le_trans hle hlimit.1, ?_, ?_⟩
    · intro v hv
      rcases List.mem_cons.mp hv with rfl | hv
      · exact Int.le_trans hle hlimit.2
      · exact hall v hv
    -- The limit is from a later watcher, or from this one, or from the start.
    · rcases hex with hsame | ⟨v, hv, heq⟩
      · rw [hsame]
        unfold PollingWatcher.pollfd
        dsimp only
        split
        · exact .inr ⟨w, List.mem_cons_self, rfl⟩
        · exact .inl rfl
      · exact .inr ⟨v, List.mem_cons_of_mem w hv, heq⟩

/-- No watcher wants to work before the limit. -/
theorem waitLimit_le {watchers : List (PollingWatcher H)} {w : PollingWatcher H}
    (hw : w ∈ watchers) : waitLimit watchers ≤ w.own.next :=
  (foldl_pollfd_le watchers timeMax).2.1 w hw

/-- Some watcher wants to work at the limit. -/
theorem exists_next_eq {watchers : List (PollingWatcher H)} (h : waitLimit watchers < timeMax) :
    ∃ w ∈ watchers, w.own.next = waitLimit watchers := by
  rcases (foldl_pollfd_le watchers timeMax).2.2 with hsame | ⟨w, hw, heq⟩
  · exact absurd hsame (Int.ne_of_lt h)
  · exact ⟨w, hw, heq.symm⟩

/-- The test after `select` is about the time of the watcher. -/
theorem isDue_iff {now : Timeval} (hnow : Normalised now) (ready : Bool) (w : PollingWatcher H) :
    isDue now ready w = true ↔ min w.own.next timeMax * 1000000 ≤ micros now := by
  have hlimit : (w.pollfd timeMax).2 = min w.own.next timeMax := by
    unfold PollingWatcher.pollfd
    dsimp only
    omega
  rw [← hlimit, ← geTime_iff hnow]
  rfl

/-! ### The wait -/

/-- **The timeout is exact.** -/
theorem timeout_exact {watchers : List (PollingWatcher H)} {now : Timeval} (hnow : Normalised now)
    (hlimit : waitLimit watchers < timeMax) :
    -- the limit is the earliest time of the watchers
    (∀ w ∈ watchers, waitLimit watchers ≤ w.own.next) ∧
    ∃ delta, selectTimeout (waitLimit watchers) now = some delta ∧
      -- it is the time until the limit
      Normalised delta ∧ 0 ≤ delta.sec ∧
      micros delta = max 0 (waitLimit watchers * 1000000 - micros now) ∧
      -- and zero if the test holds already
      (delta = ⟨0, 0⟩ ↔ now.geTime (waitLimit watchers) = true) ∧
      -- when it has run out, a watcher is due
      (∀ later : Timeval, Normalised later → micros now + micros delta ≤ micros later →
        ∃ w ∈ watchers, ∀ ready, isDue later ready w = true) ∧
      -- and when none is due, there is something to wait for
      ((∀ w ∈ watchers, ∃ ready, isDue now ready w = false) → delta ≠ ⟨0, 0⟩) := by
  have hfinite : waitLimit watchers ≠ timeMax := Int.ne_of_lt hlimit
  have hmicros : micros (timeSub (waitLimit watchers) now) =
      waitLimit watchers * 1000000 - micros now := by
    unfold timeSub
    rw [micros_sub]
    simp [micros]
  have hnormal : Normalised (timeSub (waitLimit watchers) now) :=
    normalised_sub (normalised_ofTime _) hnow
  -- The two sides of the test for a limit that has passed.
  have htimeout : ∃ delta, selectTimeout (waitLimit watchers) now = some delta ∧
      Normalised delta ∧ micros delta = max 0 (waitLimit watchers * 1000000 - micros now) := by
    unfold selectTimeout
    rw [if_pos hfinite]
    dsimp only
    by_cases hneg : (timeSub (waitLimit watchers) now).ltTime 0 = true
    · rw [if_pos hneg]
      refine ⟨_, rfl, normalised_ofTime 0, ?_⟩
      have hpast := (ltTime_iff hnormal 0).mp hneg
      show (0 : Int) = _
      omega
    · rw [if_neg hneg]
      refine ⟨_, rfl, hnormal, ?_⟩
      have hfuture := mt (ltTime_iff hnormal 0).mpr hneg
      omega
  obtain ⟨delta, hdelta, hdnormal, hdmicros⟩ := htimeout
  -- A normal time has one form, so that it is zero if its microseconds are.
  have hzero : delta = ⟨0, 0⟩ ↔ micros delta = 0 := by
    refine ⟨?_, ?_⟩
    · rintro rfl
      rfl
    · intro h
      obtain ⟨sec, usec⟩ := delta
      obtain ⟨h₀, h₁⟩ := hdnormal
      simp only [micros] at h h₀ h₁
      have hsec : sec = 0 := by omega
      have husec : usec = 0 := by omega
      rw [hsec, husec]
  have hdue {later : Timeval} (hlater : Normalised later)
      (h : waitLimit watchers * 1000000 ≤ micros later) :
      ∃ w ∈ watchers, ∀ ready, isDue later ready w = true := by
    -- The watcher that set the limit is the one that is due.
    obtain ⟨w, hw, hnext⟩ := exists_next_eq hlimit
    refine ⟨w, hw, fun ready => (isDue_iff hlater ready w).mpr ?_⟩
    rw [hnext]
    omega
  refine ⟨fun w => waitLimit_le, delta, hdelta, hdnormal, ?_, hdmicros, ?_, ?_, ?_⟩
  · obtain ⟨h₀, h₁⟩ := hdnormal
    unfold micros at hdmicros
    omega
  · rw [hzero, geTime_iff hnow]
    omega
  · intro later hlater hle
    exact hdue hlater (by omega)
  · intro hnone hspin
    obtain ⟨w, hw, hready⟩ := hdue hnow (by rw [hzero] at hspin; omega)
    obtain ⟨ready, hfalse⟩ := hnone w hw
    rw [hready ready] at hfalse
    cases hfalse

/-- Two watchers, one of them due in half a second. -/
def twoPolls : List (PollingWatcher Unit) :=
  [⟨[], none, [], ⟨12, -1, -1⟩⟩, ⟨[], none, [], ⟨11, -1, -1⟩⟩]

/-- Half a second to wait. -/
theorem timeout_exact_twoPolls :
    ∃ delta, selectTimeout 11 ⟨10, 500000⟩ = some delta ∧ micros delta = 500000 := by
  obtain ⟨-, delta, hdelta, -, -, hmicros, -⟩ :=
    @timeout_exact Unit twoPolls ⟨10, 500000⟩ ⟨by decide, by decide⟩ (by decide)
  exact ⟨delta, hdelta, hmicros⟩

end

end Blockad.Proofs
