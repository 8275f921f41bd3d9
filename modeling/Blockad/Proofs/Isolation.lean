import Blockad.Lib.Keyed
import Blockad.Proofs.Detection

/-!
# `Blockad.Proofs.Isolation`: the addresses do not influence each other

All addresses share one map, one configuration and one block method. A `Journal` runs any
detections, with any reloads in between, and remembers next to the program the detections and
the calls of `block` there were.

* `count`: the machine of a single address, which knows no other.
* `journal_simulates`: the program is one copy of `count` for each address.
* `addresses_isolated`: what happens to an address depends on its own detections only. It is
  blocked once at most, and never while it is exempt.
-/

set_option autoImplicit false

namespace Blockad.Proofs

open BlockingWatcher Bytes Keyed Prog Runs

variable [Libc]

/-! ### Runs with any reloads -/

/-- A detection, with the configuration in force and what it gets from outside. -/
structure Detection where
  config : ConfFile
  address : Address
  attempt : Attempt

/-- What a detection is given, apart from the result of `block`. -/
def Detection.given (d : Detection) : ConfFile × Address × Int :=
  (d.config, d.address, d.attempt.now)

/-- The result that `block` has at a detection. -/
def Detection.result (d : Detection) : Except Exn Bool := d.attempt.block

/-- The daemon between two detections. `detections` are those so far, and `calls` those of them
that called `block`. An exception ends the daemon. -/
structure Journal where
  config : ConfFile
  store : Store
  running : Bool
  detections : List Detection
  calls : List Detection

/-- The result is not an exception. -/
def returned {ε σ α : Type} : EStateM.Result ε σ α → Bool
  | .ok _ _ => true
  | .error _ _ => false

namespace Journal

/-- What happens. -/
inductive Event where
  | detected (a : Address)
  | reloaded (cf : ConfFile)

/-- The journal after a detection, from what the program does. -/
def detect (s : Journal) (a : Address) : Journal :=
  let r := (detectedAddress s.config a).run s.store
  let called := (stateOf r).blockCalls.drop s.store.blockCalls.length
  { s with
    store := stateOf r
    running := returned r
    detections := s.detections ++ [⟨s.config, a, s.store.future 0⟩]
    calls := s.calls ++ called.map (⟨s.config, ·, s.store.future 0⟩) }

/-- The daemon starts with no data. The clock and the results of `block` are arbitrary. -/
structure Started (s : Journal) : Prop where
  addressData : s.store.addressData = ∅
  running : s.running = true
  detections : s.detections = []
  calls : s.calls = []

/-- A detection, or a reload of any configuration. -/
inductive Step : Journal → Event → Journal → Prop where
  | detected {s : Journal} (a : Address) (h : s.running = true) :
      Step s (.detected a) (s.detect a)
  | reloaded {s : Journal} (cf : ConfFile) (h : s.running = true) :
      Step s (.reloaded cf) { s with config := cf }

/-- The detections of an address. -/
def detectionsOf (s : Journal) (a : Address) : List Detection :=
  s.detections.filter (·.address = a)

/-- The calls of `block` for an address. -/
def callsOf (s : Journal) (a : Address) : List Detection := s.calls.filter (·.address = a)

end Journal

/-! ### The machine of one address -/

/-- The attempt blocks the address. -/
def blocks (attempt : Attempt) : Bool :=
  match attempt.block with
  | .ok blocked => blocked
  | .error _ => false

/-- The data of an address after a detection, and the detection itself if it calls `block`. -/
def count : Machine AddressData Detection Detection := fun ad d =>
  if isExempted d.config d.address || ad.blocked then (ad, [])
  else
    let times := recordTime ad.times d.attempt.now d.config.rateInterval
    if d.config.rateMax < times.length then (⟨times, blocks d.attempt⟩, [d])
    else (⟨times, false⟩, [])

/-- A call is about the detection that made it, whose address is not exempted. -/
theorem eq_of_mem_count {ad : AddressData} {d o : Detection} (h : o ∈ (count ad d).2) :
    o = d ∧ isExempted d.config d.address = false := by
  unfold count at h
  split at h
  · cases h
  rename_i hcounted
  dsimp only at h
  split at h
  · exact ⟨List.mem_singleton.mp h, (Bool.or_eq_false_iff.mp (by simpa using hcounted)).1⟩
  · cases h

omit [Libc] in
/-- The map is one cell for each address. -/
theorem dataOf_update_eq (s : Store) (a : Address) (ad : AddressData) :
    (s.update a ad).dataOf = Function.update s.dataOf a ad := by
  funext b
  rw [dataOf_update, Function.update_apply]
  exact if_congr eq_comm rfl rfl

/-- A detection that calls `block`: the time is recorded before the call, whatever its result
is. -/
theorem stateOf_of_long {cf : ConfFile} {a : Address} {s : Store}
    (hcounted : (isExempted cf a || (s.dataOf a).blocked) = false)
    (hlong : cf.rateMax < (recordTime (s.dataOf a).times (s.future 0).now cf.rateInterval).length) :
    let r := (detectedAddress cf a).run s
    let times := recordTime (s.dataOf a).times (s.future 0).now cf.rateInterval
    returned r = (s.future 0).block.isOk ∧ (stateOf r).future = s.next.future ∧
      (stateOf r).blockCalls = s.blockCalls ++ [a] ∧
      (stateOf r).dataOf = Function.update s.dataOf a ⟨times, blocks (s.future 0)⟩ := by
  obtain ⟨hexempt, hblocked⟩ := Bool.or_eq_false_iff.mp hcounted
  rw [detectedAddress_run, hexempt, hblocked]
  simp only [Bool.false_eq_true, if_false, hlong, if_true, blocks]
  rcases (s.future 0).block with e | ⟨_ | _⟩
  · exact ⟨rfl, rfl, rfl, dataOf_update_eq s.next a _⟩
  · exact ⟨rfl, rfl, rfl, dataOf_update_eq s.next a _⟩
  · refine ⟨rfl, rfl, rfl, (dataOf_update_eq _ a _).trans ?_⟩
    show Function.update (s.next.update a _).dataOf a _ = _
    rw [dataOf_update_eq, Function.update_idem]
    rfl

/-- **One detection is a step of the machine of its address.** -/
theorem detect_eq (s : Journal) (a : Address) :
    let d : Detection := ⟨s.config, a, s.store.future 0⟩
    let calls := (product (·.address) count s.store.dataOf d).2
    (s.detect a).running = calls.all (·.result.isOk) ∧
      (s.detect a).store.future = s.store.next.future ∧
      (s.detect a).store.dataOf = (product (·.address) count s.store.dataOf d).1 ∧
      (s.detect a).calls = s.calls ++ calls := by
  intro d calls
  dsimp only [Journal.detect, product, count, d, calls]
  by_cases hskip : (isExempted s.config a || (s.store.dataOf a).blocked) = true
  · have hrun : (detectedAddress s.config a).run s.store = .ok () s.store.next := by
      rw [detectedAddress_run]
      rcases Bool.or_eq_true_iff.mp hskip with h | h <;> simp [h]
    rw [hrun, if_pos hskip]
    exact ⟨rfl, rfl, (Function.update_eq_self a _).symm, by simp [stateOf_ok, Store.next]⟩
  have hcounted := Bool.eq_false_iff.mpr hskip
  rw [if_neg hskip]
  by_cases hlong : s.config.rateMax < (recordTime (s.store.dataOf a).times (s.store.future 0).now
      s.config.rateInterval).length
  · obtain ⟨hreturned, hfuture, hcalls, hdata⟩ := stateOf_of_long hcounted hlong
    rw [if_pos hlong]
    exact ⟨by simpa [Detection.result] using hreturned, hfuture, hdata, by simp [hcalls]⟩
  · obtain ⟨hexempt, hblocked⟩ := Bool.or_eq_false_iff.mp hcounted
    have hrun := detectedAddress_run s.config a s.store
    simp only [hexempt, hblocked, hlong, Bool.false_eq_true, if_false] at hrun
    rw [hrun, if_neg hlong]
    exact ⟨rfl, rfl, dataOf_update_eq s.store.next a _,
      by simp [stateOf_ok, Store.update, Store.next]⟩

/-! ### The program is one machine for each address -/

/-- The invariant of the runs. -/
def Simulates (s : Journal) : Prop :=
  (product (·.address) count).run (fun _ => {}) s.detections = (s.store.dataOf, s.calls)

/-- **One step.** The counter of the address moves, and no other. -/
theorem simulates_step {s s' : Journal} {e : Journal.Event} (hs : Simulates s)
    (h : Journal.Step s e s') : Simulates s' := by
  cases h with
  | reloaded cf => exact hs
  | detected a =>
    obtain ⟨-, -, hdata, hcalls⟩ := detect_eq s a
    show (product (·.address) count).run _ (s.detections ++ [_]) = _
    rw [Machine.run_concat, hs, hdata, hcalls]

/-- **The simulation.** What the program keeps of an address, and its calls for it, are those
of the machine of the address alone. -/
theorem journal_simulates {s : Journal} (h : Reachable Journal.Started Journal.Step s)
    (a : Address) :
    s.store.dataOf a = (count.run {} (s.detectionsOf a)).1 ∧
      s.callsOf a = (count.run {} (s.detectionsOf a)).2 := by
  have hs : Simulates s := by
    refine h.invariant ?_ fun _ _ _ => simulates_step
    intro s h
    have hdata : s.store.dataOf = fun _ => {} := by
      funext b
      simp [Store.dataOf, h.addressData]
    rw [Simulates, h.detections, h.calls, hdata]
    rfl
  have hkey : ∀ (ad : AddressData) d, ∀ o ∈ (count ad d).2, o.address = d.address :=
    fun ad d o ho => by rw [(eq_of_mem_count ho).1]
  obtain ⟨hdata, hcalls⟩ := product_run hkey (fun _ => {}) s.detections a
  rw [hs] at hdata hcalls
  exact ⟨hdata, hcalls⟩

/-! ### Runs of one machine -/

/-- A detection calls `block` or not, whatever the result is. -/
theorem count_cases (ad : AddressData) (d : Detection) :
    (∃ ad', ∀ d' : Detection, d'.given = d.given → count ad d' = (ad', [])) ∨
      ∃ times, ∀ d' : Detection, d'.given = d.given →
        count ad d' = (⟨times, blocks d'.attempt⟩, [d']) := by
  let times := recordTime ad.times d.attempt.now d.config.rateInterval
  by_cases hskip : (isExempted d.config d.address || ad.blocked) = true
  · refine .inl ⟨ad, fun d' hd' => ?_⟩
    simp only [Detection.given, Prod.mk.injEq] at hd'
    rw [count, hd'.1, hd'.2.1, if_pos hskip]
  by_cases hlong : d.config.rateMax < times.length
  · refine .inr ⟨times, fun d' hd' => ?_⟩
    simp only [Detection.given, Prod.mk.injEq] at hd'
    rw [count, hd'.1, hd'.2.1, hd'.2.2, if_neg hskip, if_pos hlong]
  · refine .inl ⟨⟨times, false⟩, fun d' hd' => ?_⟩
    simp only [Detection.given, Prod.mk.injEq] at hd'
    rw [count, hd'.1, hd'.2.1, hd'.2.2, if_neg hskip, if_neg hlong]

/-- A detection is what it is given, and the result of `block`. -/
theorem Detection.ext_given {d d' : Detection} (hgiven : d.given = d'.given)
    (hresult : d.result = d'.result) : d = d' := by
  obtain ⟨config, address, now, block⟩ := d
  obtain ⟨config', address', now', block'⟩ := d'
  simp only [given, Prod.mk.injEq, result] at hgiven hresult
  obtain ⟨rfl, rfl, rfl⟩ := hgiven
  rw [hresult]

/-- The results of `block` are the only other input of a machine. -/
theorem run_count_congr {ad : AddressData} {ds ds' : List Detection}
    (hgiven : ds.map Detection.given = ds'.map Detection.given)
    (hresults : (count.run ad ds).2.map Detection.result
        <+: (count.run ad ds').2.map Detection.result ∨
      (count.run ad ds').2.map Detection.result <+: (count.run ad ds).2.map Detection.result) :
    count.run ad ds = count.run ad ds' := by
  induction ds generalizing ad ds' with
  | nil => rw [List.map_eq_nil_iff.mp hgiven.symm]
  | cons d ds ih =>
    cases ds' with
    | nil => cases hgiven
    | cons d' ds' =>
      obtain ⟨hd, hds⟩ := List.cons.inj hgiven
      rcases count_cases ad d with ⟨ad', hcount⟩ | ⟨times, hcount⟩
      · -- Neither run calls `block` here.
        simp only [Machine.run, hcount d rfl, hcount d' hd.symm, List.nil_append] at hresults ⊢
        exact ih hds hresults
      · -- Both do, with the same result.
        simp only [Machine.run, hcount d rfl, hcount d' hd.symm, List.singleton_append,
          List.map_cons, List.cons_prefix_cons] at hresults
        have hresult : d.result = d'.result := hresults.elim (·.1) (·.1.symm)
        have hsame : d = d' := Detection.ext_given hd hresult
        subst hsame
        have hrest := ih hds (hresults.imp (·.2) (·.2))
        rw [Machine.run, Machine.run, hcount d rfl, hrest]

/-- A blocked address stays as it is. -/
theorem run_of_blocked {ad : AddressData} (h : ad.blocked = true) (ds : List Detection) :
    count.run ad ds = (ad, []) := by
  induction ds with
  | nil => rfl
  | cons d ds ih =>
    have hskip : count ad d = (ad, []) := by rw [count, h, Bool.or_true, if_pos rfl]
    rw [Machine.run, hskip, ih, List.nil_append]

/-- A call that returns true is the last one. -/
theorem length_of_blocked {ad : AddressData} {ds : List Detection} {i : Nat}
    (h : ((count.run ad ds).2.map Detection.result)[i]? = some (.ok true)) :
    i + 1 = (count.run ad ds).2.length := by
  induction ds generalizing ad i with
  | nil => cases h
  | cons d ds ih =>
    rcases count_cases ad d with ⟨ad', hcount⟩ | ⟨times, hcount⟩
    · simp only [Machine.run, hcount d rfl, List.nil_append] at h ⊢
      exact ih h
    · simp only [Machine.run, hcount d rfl, List.singleton_append, List.map_cons] at h ⊢
      cases i with
      | zero =>
        have hblocks : blocks d.attempt = true := by
          have hresult : d.attempt.block = .ok true := Option.some.inj h
          rw [blocks, hresult]
        rw [run_of_blocked hblocks]
        rfl
      | succ i =>
        rw [List.getElem?_cons_succ] at h
        rw [List.length_cons, ← ih h]

/-! ### Runs without the others -/

/-- Every call of `block` is for an address that its configuration does not exempt. -/
theorem exempted_of_mem_calls {ad : AddressData} {ds : List Detection} {d : Detection}
    (h : d ∈ (count.run ad ds).2) : isExempted d.config d.address = false := by
  induction ds generalizing ad with
  | nil => cases h
  | cons d' ds ih =>
    rcases List.mem_append.mp h with h | h
    · obtain ⟨rfl, hexempt⟩ := eq_of_mem_count h
      exact hexempt
    · exact ih h

/-- The same run when only one address is ever detected, with any attempts to come. -/
theorem exists_alone {s : Journal} (h : Reachable Journal.Started Journal.Step s) (a : Address)
    (future : Nat → Attempt) :
    ∃ s', Reachable Journal.Started Journal.Step s' ∧ s'.config = s.config ∧
      (s.running = true → s'.running = true) ∧ s'.detections = s.detectionsOf a ∧
      s'.store.future = future := by
  induction h generalizing future with
  | @start s hs =>
    let s' : Journal := { s with store := { s.store with future } }
    have hstart : Journal.Started s' := ⟨hs.addressData, hs.running, hs.detections, hs.calls⟩
    refine ⟨s', .start hstart, rfl, id, ?_, rfl⟩
    rw [Journal.detectionsOf, hs.detections]
    rfl
  | @next s _ e hs hstep ih =>
    cases hstep with
    | reloaded cf hrunning =>
      obtain ⟨s', hs', -, hrun, hdetections, hfuture⟩ := ih future
      exact ⟨{ s' with config := cf }, .next _ hs' (.reloaded cf (hrun hrunning)), rfl, hrun,
        hdetections, hfuture⟩
    | detected b hrunning =>
      by_cases hb : b = a
      · -- The same detection, from a store that may differ for other addresses only.
        subst hb
        obtain ⟨s', hs', hconfig, hrun, hdetections, hfuture⟩ :=
          ih fun n => Nat.casesOn n (s.store.future 0) future
        have hnow : s'.store.future 0 = s.store.future 0 := congrFun hfuture 0
        have hsame : s'.store.dataOf b = s.store.dataOf b := by
          rw [(journal_simulates hs' b).1, (journal_simulates hs b).1, Journal.detectionsOf,
            hdetections, Journal.detectionsOf, List.filter_filter]
          simp
        obtain ⟨hrunning', hfuture', -⟩ := detect_eq s' b
        refine ⟨s'.detect b, .next _ hs' (.detected b (hrun hrunning)), hconfig, ?_, ?_, ?_⟩
        · rw [hrunning', (detect_eq s b).1]
          dsimp only [product]
          rw [hconfig, hnow, hsame]
          exact id
        · dsimp only [Journal.detect, Journal.detectionsOf]
          rw [hconfig, hnow, hdetections, List.filter_append, List.filter_cons_of_pos (by simp)]
          rfl
        · rw [hfuture']
          dsimp only [Store.next]
          rw [hfuture]
      · obtain ⟨s', hs', hconfig, hrun, hdetections, hfuture⟩ := ih future
        refine ⟨s', hs', hconfig, fun _ => hrun hrunning, ?_, hfuture⟩
        rw [hdetections]
        dsimp only [Journal.detect, Journal.detectionsOf]
        rw [List.filter_append, List.filter_cons_of_neg (by simpa using hb)]
        simp

/-! ### The addresses of texts -/

/-- The 128-bit address that a text denotes. -/
inductive Denotes (text : Bytes) : In6Addr → Prop
  | ipv4 {a : Vector UInt8 4} :
      chr ':' ∉ text → Libc.inetPton4 (cstr text) = some a → Denotes text (mapped4 a)
  | ipv6 {a : In6Addr} : chr ':' ∈ text → Libc.inetPton6 (cstr text) = some a → Denotes text a

/-- `Address::assign` accepts the texts that denote an address. -/
theorem assign_eq_ok_iff {text : Bytes} {x : In6Addr} :
    Address.assign text = .ok ⟨x⟩ ↔ Denotes text x := by
  have hwhole : (text.drop 0).take (min ((none : Option Nat).getD text.length)
      (text.length - 0)) = text := by simp
  simp only [Address.assign, AddressBase.convert, hwhole, List.contains_iff_mem]
  by_cases hcolon : chr ':' ∈ text
  · rw [if_pos hcolon]
    constructor
    · intro h
      cases hpton : Libc.inetPton6 (cstr text) with
      | none =>
        rw [hpton] at h
        cases h
      | some a =>
        rw [hpton] at h
        cases h
        exact .ipv6 hcolon hpton
    · rintro (⟨hno, -⟩ | ⟨-, hpton⟩)
      · exact absurd hcolon hno
      · rw [hpton]
        rfl
  · rw [if_neg hcolon]
    constructor
    · intro h
      cases hpton : Libc.inetPton4 (cstr text) with
      | none =>
        rw [hpton] at h
        cases h
      | some a =>
        rw [hpton] at h
        cases h
        exact .ipv4 hcolon hpton
    · rintro (⟨-, hpton⟩ | ⟨hyes, -⟩)
      · rw [hpton]
        rfl
      · exact absurd hyes hcolon

/-- The detections of two texts use the same data. -/
def SharesData (text text' : Bytes) : Prop :=
  ∃ a a', Address.assign text = .ok a ∧ Address.assign text' = .ok a' ∧
    ∀ (s : Store) (ad : AddressData), (s.update a ad).dataOf a' = ad

/-- Two texts share their data exactly if they denote one address. -/
theorem sharesData_iff {text text' : Bytes} {x x' : In6Addr} (h : Denotes text x)
    (h' : Denotes text' x') : SharesData text text' ↔ x = x' := by
  have ha := assign_eq_ok_iff.mpr h
  have ha' := assign_eq_ok_iff.mpr h'
  constructor
  · rintro ⟨a, a', hassign, hassign', hshares⟩
    cases ha.symm.trans hassign
    cases ha'.symm.trans hassign'
    by_contra hne
    -- The data of the second address does not change with that of the first.
    let s : Store := { addressData := ∅, blockCalls := [], future := fun _ => ⟨0, .ok true⟩ }
    have hdata := hshares s ⟨[], true⟩
    rw [dataOf_update, if_neg (by simpa using hne)] at hdata
    simp [s, Store.dataOf] at hdata
  · rintro rfl
    exact ⟨_, _, ha, ha', fun s ad => by rw [dataOf_update, if_pos rfl]⟩

/-- Where one address is detected only, `block` is called for it only. -/
theorem address_of_mem_calls {s : Journal} (h : Reachable Journal.Started Journal.Step s)
    {a : Address} {ds : List Detection} (hdetections : s.detections = ds.filter (·.address = a))
    {d : Detection} (hd : d ∈ s.calls) : d.address = a := by
  by_contra hne
  have hnone : s.detectionsOf d.address = [] := by
    rw [Journal.detectionsOf, hdetections, List.filter_filter, List.filter_eq_nil_iff]
    intro d' _ hboth
    simp only [decide_eq_true_eq, Bool.and_eq_true] at hboth
    exact hne (hboth.1.symm.trans hboth.2)
  have hcall : d ∈ s.callsOf d.address := List.mem_filter.mpr ⟨hd, by simp⟩
  rw [(journal_simulates h d.address).2, hnone] at hcall
  cases hcall

/-- **The addresses are isolated.** -/
theorem addresses_isolated {s : Journal} (h : Reachable Journal.Started Journal.Step s)
    (a : Address) :
    -- only the detections of the address matter, and the results of its calls
    (∀ s', Reachable Journal.Started Journal.Step s' →
      (s.detectionsOf a).map Detection.given = (s'.detectionsOf a).map Detection.given →
      ((s.callsOf a).map Detection.result <+: (s'.callsOf a).map Detection.result ∨
        (s'.callsOf a).map Detection.result <+: (s.callsOf a).map Detection.result) →
      s.store.dataOf a = s'.store.dataOf a ∧ s.callsOf a = s'.callsOf a) ∧
    -- the others can be left out
    (∃ s', Reachable Journal.Started Journal.Step s' ∧ s'.detections = s.detectionsOf a ∧
      s'.store.dataOf a = s.store.dataOf a ∧ s'.calls = s.callsOf a) ∧
    -- it is blocked once
    (∀ i : Nat, ((s.callsOf a).map Detection.result)[i]? = some (.ok true) →
      i + 1 = (s.callsOf a).length) ∧
    -- and never while it is exempt
    (∀ d ∈ s.callsOf a, ∀ p ∈ d.config.exempted, p.matches a = false) ∧
    -- texts of one address share its data
    ∀ (text text' : Bytes) (x x' : In6Addr), Denotes text x → Denotes text' x' →
      (SharesData text text' ↔ x = x') := by
  obtain ⟨hdata, hcalls⟩ := journal_simulates h a
  refine ⟨?_, ?_, ?_, ?_, fun _ _ _ _ => sharesData_iff⟩
  · intro s' h' hgiven hresults
    obtain ⟨hdata', hcalls'⟩ := journal_simulates h' a
    rw [hcalls, hcalls'] at hresults
    rw [hdata, hdata', hcalls, hcalls', run_count_congr hgiven hresults]
    exact ⟨rfl, rfl⟩
  · obtain ⟨s', h', -, -, hdetections, -⟩ := exists_alone h a s.store.future
    obtain ⟨hdata', hcalls'⟩ := journal_simulates h' a
    have hown : s'.detectionsOf a = s.detectionsOf a := by
      rw [Journal.detectionsOf, hdetections, Journal.detectionsOf, List.filter_filter]
      simp
    rw [hown] at hdata' hcalls'
    refine ⟨s', h', hdetections, hdata'.trans hdata.symm, ?_⟩
    rw [hcalls, ← hcalls', Journal.callsOf, List.filter_eq_self.mpr]
    intro d hd
    simpa using address_of_mem_calls h' hdetections hd
  · intro i hi
    rw [hcalls] at hi ⊢
    exact length_of_blocked hi
  · intro d hd p hp
    have haddress : d.address = a := by simpa using (List.mem_filter.mp hd).2
    rw [hcalls] at hd
    have hexempt := exempted_of_mem_calls hd
    rw [haddress] at hexempt
    simpa using List.any_eq_false.mp hexempt p hp

section
omit [Libc]

/-- A daemon that blocks at the first detection. -/
def freshJournal : @Journal Libc.noMatch :=
  letI := Libc.noMatch
  { config := { ConfFile.initial (Bytes.lit "blockad.conf") with rateMax := 0 }
    store := { addressData := ∅, blockCalls := [], future := fun n => ⟨n, .ok true⟩ }
    running := true
    detections := []
    calls := [] }

/-- 192.0.2.1 is detected before and after another address. Without the other one it is blocked
at its first detection just the same. -/
theorem addresses_isolated_freshJournal :
    letI := Libc.noMatch
    let a : Address := ⟨mapped4 #v[192, 0, 2, 1]⟩
    let s := ((freshJournal.detect a).detect ⟨mapped4 #v[192, 0, 2, 2]⟩).detect a
    ∃ s', Reachable Journal.Started Journal.Step s' ∧ s'.detections = s.detectionsOf a ∧
      s'.store.dataOf a = s.store.dataOf a ∧ s'.calls = s.callsOf a := by
  let _ := Libc.noMatch
  have hstart : Journal.Started freshJournal := ⟨rfl, rfl, rfl, rfl⟩
  exact (addresses_isolated
    (.next _ (.next _ (.next _ (.start hstart) (.detected _ rfl)) (.detected _ rfl))
      (.detected _ rfl)) _).2.1

end

end Blockad.Proofs
