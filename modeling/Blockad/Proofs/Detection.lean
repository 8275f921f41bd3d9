import Blockad.Lib.Prog
import Blockad.Lib.Runs
import Blockad.Lib.Window
import Blockad.Model.BlockingWatcher

/-!
# `Blockad.Proofs.Detection`: the detection times are an exact sliding window

`detectedAddress` prunes the times of an address from their front, and only when the same
address is seen again. `History` runs any number of detections of any addresses, with
reloads in between, and remembers next to the program all the detections there were.

* `detectedAddress_run`: the cases of one detection.
* `Windowed`: the invariant. For every bound that a later detection may use, the times of an
  address that is not blocked are the remembered ones from that bound on.
* `block_called_iff`: `block` is called exactly when the remembered detections inside the
  window outnumber `rate_max`.
-/

set_option autoImplicit false

namespace Blockad.Proofs

open BlockingWatcher Prog Runs Window

/-! ### The store -/

section
variable (s : Store) (a b : Address) (ad : AddressData)

/-- The data of one address changes. -/
theorem dataOf_update : (s.update a ad).dataOf b = if a = b then ad else s.dataOf b := by
  simp only [Store.dataOf, Store.update, Std.TreeMap.getD_insert, Std.LawfulEqCmp.compare_eq_iff_eq]

/-- The next attempt changes no data. -/
@[simp] theorem dataOf_next : s.next.dataOf b = s.dataOf b := rfl

/-- The store when `block` was called. -/
def Store.called : Store := { s with blockCalls := s.blockCalls ++ [a] }

/-- A call of `block` changes no data itself. -/
@[simp] theorem dataOf_called : (Store.called s a).dataOf b = s.dataOf b := rfl

end

/-! ### One detection -/

variable [Libc]

/-- Exempted addresses are not counted. -/
def isExempted (cf : ConfFile) (a : Address) : Bool := cf.exempted.any (·.matches a)

omit [Libc] in
/-- `block` is called once, and its exception is passed on. -/
theorem blockAddress_run (a : Address) (block : Except Exn Bool) (s : Store) :
    (blockAddress a block).run s = match block with
      | .error e => .error (.thrown e) (Store.called s a)
      | .ok blocked => .ok blocked (Store.called s a) := by
  cases block <;> rfl

/-- **One detection.** -/
theorem detectedAddress_run (cf : ConfFile) (a : Address) (s : Store) :
    (detectedAddress cf a).run s =
      if isExempted cf a then .ok () s.next
      else if (s.dataOf a).blocked then .ok () s.next
      else
        let times := recordTime (s.dataOf a).times (s.future 0).now cf.rateInterval
        let s' := s.next.update a ⟨times, false⟩
        if cf.rateMax < times.length then
          match (s.future 0).block with
          | .error e => .error (.thrown e) (Store.called s' a)
          | .ok false => .ok () (Store.called s' a)
          | .ok true => .ok () ((Store.called s' a).update a ⟨times, true⟩)
        else .ok () s' := by
  rw [detectedAddress]
  show _ = (if cf.exempted.any (·.matches a) then _ else _)
  by_cases hexempt : cf.exempted.any (·.matches a)
  · simp [hexempt]
  cases hblocked : (s.dataOf a).blocked with
  | true => simp [hexempt, hblocked]
  | false =>
    simp only [EStateM.run_bind, EStateM.run_get, EStateM.run_modify, hexempt, hblocked,
      dataOf_next, Bool.false_eq_true, if_false, gt_iff_lt]
    by_cases hlong : cf.rateMax < (recordTime (s.dataOf a).times (s.future 0).now
        cf.rateInterval).length
    · simp only [hlong, if_true, EStateM.run_bind, blockAddress_run]
      rcases (s.future 0).block with e | ⟨_ | _⟩ <;> rfl
    · simp only [hlong, if_false]
      rfl

/-- The detection makes a call of `block`. -/
def CallsBlock (cf : ConfFile) (a : Address) (s : Store) : Prop :=
  (stateOf ((detectedAddress cf a).run s)).blockCalls = s.blockCalls ++ [a]

/-- A counted detection calls `block` when too many times are recorded. -/
theorem callsBlock_iff {cf : ConfFile} {a : Address} {s : Store} (hexempt : isExempted cf a = false)
    (hblocked : (s.dataOf a).blocked = false) :
    CallsBlock cf a s ↔ cf.rateMax <
      (recordTime (s.dataOf a).times (s.future 0).now cf.rateInterval).length := by
  rw [CallsBlock, detectedAddress_run, hexempt, hblocked]
  simp only [Bool.false_eq_true, if_false]
  split
  · refine iff_of_true ?_ ‹_›
    rcases (s.future 0).block with e | ⟨_ | _⟩ <;> rfl
  · refine iff_of_false ?_ ‹_›
    simp [stateOf, Store.update, Store.next]

/-- What a detection that returns changes: nothing but the future, or the data of its
address. -/
theorem dataOf_of_detectedAddress {cf : ConfFile} {a : Address} {s s' : Store}
    (h : (detectedAddress cf a).run s = .ok () s') :
    s'.future = s.next.future ∧
      (((isExempted cf a = true ∨ (s.dataOf a).blocked = true) ∧ ∀ b, s'.dataOf b = s.dataOf b) ∨
        (isExempted cf a = false ∧ (s.dataOf a).blocked = false ∧ ∃ blocked, ∀ b, s'.dataOf b =
          if a = b then ⟨recordTime (s.dataOf a).times (s.future 0).now cf.rateInterval, blocked⟩
          else s.dataOf b)) := by
  rw [detectedAddress_run] at h
  split at h
  · cases h
    exact ⟨rfl, .inl ⟨.inl ‹_›, fun b => rfl⟩⟩
  split at h
  · cases h
    exact ⟨rfl, .inl ⟨.inr ‹_›, fun b => rfl⟩⟩
  have hexempt : isExempted cf a = false := by simpa using ‹¬ isExempted cf a = true›
  have hblocked : (s.dataOf a).blocked = false := by simpa using ‹¬ (s.dataOf a).blocked = true›
  dsimp only at h
  split at h
  · split at h <;> cases h
    · -- The attempt failed. The time stays recorded.
      exact ⟨rfl, .inr ⟨hexempt, hblocked, false, fun b => by simp [dataOf_update]⟩⟩
    · -- The address is blocked from now on.
      refine ⟨rfl, .inr ⟨hexempt, hblocked, true, ?_⟩⟩
      intro b
      rw [dataOf_update, dataOf_called, dataOf_update]
      split <;> simp
  · -- The rate was not exceeded.
    cases h
    exact ⟨rfl, .inr ⟨hexempt, hblocked, false, fun b => by simp [dataOf_update]⟩⟩

/-! ### Runs of detections -/

/-- The daemon between two detections, and the times of all the detections it has counted so
far, by address. -/
structure History where
  config : ConfFile
  store : Store
  detections : Address → List Int

/-- What happens. -/
inductive Event where
  | detected (a : Address)
  | reloaded (cf : ConfFile)

/-- The history with the current detection of `a`, if it counts. -/
def History.record (s : History) (a b : Address) : List Int :=
  if a = b ∧ isExempted s.config a = false then s.detections b ++ [(s.store.future 0).now]
  else s.detections b

/-- The daemon starts with no data, and the clock does not go back. -/
structure Started (s : History) : Prop where
  addressData : s.store.addressData = ∅
  detections : s.detections = fun _ => []
  clock : ∀ n, (s.store.future n).now ≤ (s.store.future (n + 1)).now

/-- A detection that returns, or a reload that does not make the interval longer. -/
inductive Step : History → Event → History → Prop where
  | detected {s : History} {a : Address} {store : Store}
      (h : (detectedAddress s.config a).run s.store = .ok () store) :
      Step s (.detected a) { s with store, detections := s.record a }
  | reloaded {s : History} {cf : ConfFile} (h : cf.rateInterval ≤ s.config.rateInterval) :
      Step s (.reloaded cf) { s with config := cf }

/-- The start of the window of a detection that happens now. -/
def History.bound (s : History) : Int := (s.store.future 0).now - s.config.rateInterval

/-- The invariant of the runs: the times of an address that is not blocked yet have all its
detections in the window of any later one. -/
structure Windowed (s : History) : Prop where
  clock : ∀ n, (s.store.future n).now ≤ (s.store.future (n + 1)).now
  covers : ∀ a, (s.store.dataOf a).blocked = false →
    Covers (s.detections a) (s.store.dataOf a).times (s.store.future 0).now s.bound

/-- The empty history has every window. -/
theorem windowed_of_started {s : History} (h : Started s) : Windowed s := by
  have hdata : ∀ a, s.store.dataOf a = {} := fun a => by simp [Store.dataOf, h.addressData]
  refine ⟨h.clock, ?_⟩
  intro a _
  rw [hdata, h.detections]
  exact .nil

/-- **The step lemma.** -/
theorem windowed_step {s s' : History} {e : Event} (hs : Windowed s) (h : Step s e s') :
    Windowed s' := by
  cases h with
  | reloaded hle =>
    -- A shorter interval moves the bound forward only.
    refine ⟨hs.clock, fun a hblocked => (hs.covers a hblocked).mono le_rfl ?_⟩
    simp only [History.bound]
    omega
  | @detected a store h =>
    obtain ⟨hfuture, hcases⟩ := dataOf_of_detectedAddress h
    have hnow : (s.store.future 0).now ≤ (store.future 0).now := by
      rw [hfuture]
      exact hs.clock 0
    have hbound : s.bound ≤ (store.future 0).now - s.config.rateInterval := by
      simp only [History.bound]
      omega
    refine ⟨fun n => by rw [hfuture]; exact hs.clock (n + 1), ?_⟩
    intro b hb
    refine Covers.mono ?_ hnow hbound
    dsimp only [History.record] at hb ⊢
    rcases hcases with ⟨hskip, hdata⟩ | ⟨hexempt, hblocked, blocked, hdata⟩
    · -- Nothing is recorded. A blocked address owes nothing, an exempted one was not counted.
      rw [hdata b] at hb ⊢
      rw [if_neg]
      · exact hs.covers b hb
      · rintro ⟨rfl, hexempt⟩
        rcases hskip with hskip | hskip
        · simp [hexempt] at hskip
        · simp [hb] at hskip
    · -- The time is recorded for `a`, and counted; the other addresses keep theirs.
      rw [hdata b] at hb ⊢
      by_cases hab : a = b
      · subst hab
        simp only [hexempt, and_self, if_true]
        exact (hs.covers a hblocked).push
      · simp only [hab, false_and, if_false] at hb ⊢
        exact hs.covers b hb

/-- The run lemma. -/
theorem windowed_of_reachable {s : History} (h : Reachable Started Step s) : Windowed s :=
  h.invariant (fun _ => windowed_of_started) fun _ _ _ => windowed_step

/-- **The sliding window is exact.** In every run, a detection of an address that is neither
exempted nor blocked calls `block` exactly when the detections of the address so far, this
one included, that are not older than the interval outnumber `rate_max`. -/
theorem block_called_iff {s : History} (h : Reachable Started Step s) {a : Address}
    (hexempt : isExempted s.config a = false) (hblocked : (s.store.dataOf a).blocked = false) :
    CallsBlock s.config a s.store ↔
      s.config.rateMax < (s.detections a ++ [(s.store.future 0).now]).countP
        ((s.store.future 0).now - s.config.rateInterval ≤ ·) := by
  have hcovers := (windowed_of_reachable h).covers a hblocked
  have hbound : s.bound ≤ (s.store.future 0).now := by
    simp only [History.bound]
    omega
  have hlength : (recordTime (s.store.dataOf a).times (s.store.future 0).now
        s.config.rateInterval).length
      = (s.detections a ++ [(s.store.future 0).now]).countP
          ((s.store.future 0).now - s.config.rateInterval ≤ ·) :=
    hcovers.length_push hbound
  rw [callsBlock_iff hexempt hblocked, hlength]

section
omit [Libc]

/-- A daemon that blocks at a rate of 1 an hour. -/
def freshHistory : @History Libc.noMatch :=
  letI := Libc.noMatch
  { config := { ConfFile.initial (Bytes.lit "blockad.conf") with rateMax := 1 }
    store := { addressData := ∅, blockCalls := [], future := fun n => ⟨n, .ok false⟩ }
    detections := fun _ => [] }

/-- One second later, when it has seen one detection of 192.0.2.1. -/
def detectedOnce : @History Libc.noMatch :=
  letI := Libc.noMatch
  let a : Address := ⟨mapped4 #v[192, 0, 2, 1]⟩
  { freshHistory with
    store := stateOf ((detectedAddress freshHistory.config a).run freshHistory.store)
    detections := freshHistory.record a }

/-- One detection of 192.0.2.1. -/
theorem block_called_iff_detectedOnce :
    letI := Libc.noMatch
    CallsBlock detectedOnce.config ⟨mapped4 #v[192, 0, 2, 1]⟩ detectedOnce.store ↔
      1 < ([0, 1] : List Int).countP (1 - 3600 ≤ ·) := by
  let _ := Libc.noMatch
  have hstart : Started freshHistory := ⟨rfl, rfl, fun n => by dsimp only [freshHistory]; omega⟩
  have hstep : Step freshHistory (.detected ⟨mapped4 #v[192, 0, 2, 1]⟩) detectedOnce :=
    .detected rfl
  exact block_called_iff (.next _ (.start hstart) hstep) rfl rfl

end

end Blockad.Proofs
