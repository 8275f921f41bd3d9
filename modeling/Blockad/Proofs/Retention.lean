import Blockad.Proofs.Ownership

/-!
# `Blockad.Proofs.Retention`: which watchers survive a reload

A reload keeps as many of the old watchers as there are positions where the two configurations
have the same file, and these are the first ones of the old vector, whatever their files. Each file
that differs from the one at its position gets a new watcher.

* `updateLoop_completes_iff`: when a call completes.
* `left_of_updateWatchers`: what a call that completes deletes and creates.
* `keeps_watchers_iff`: as many watchers as possible are kept exactly when no file only changed
  its position, and the first watchers are those of the files that stayed.
-/

set_option autoImplicit false

namespace Blockad.Proofs

open Matching Prog Slots

section
variable {H W ω : Type} {os : Syscalls H W} {cls : WatcherClass W ω}

/-! ### When a call completes -/

/-- The files from a position on have old files at their positions, or there are no old files. -/
theorem fits_cons_iff {oldFiles files : List Bytes} {file : Bytes} {i : Nat}
    (hin : oldFiles = [] ∨ i < oldFiles.length) :
    (files = [] ∨ oldFiles = [] ∨ i + 1 + files.length ≤ oldFiles.length) ↔
      oldFiles = [] ∨ i + (file :: files).length ≤ oldFiles.length := by
  cases files with
  | nil => exact iff_of_true (.inl rfl) hin
  | cons file' files =>
    simp only [List.length_cons, reduceCtorEq, false_or]
    rw [show i + 1 + (files.length + 1) = i + (files.length + 1 + 1) by omega]

/-- A turn that needs a new watcher. -/
theorem completes_create_iff {file : Bytes} {files : List Bytes} {β : Type}
    {rest : ω → EStateM Halt W β} {world : W} {P : Prop}
    (hrest : ∀ watcher world', createWatcher os cls file world = .ok watcher world' →
      ((∃ b world'', rest watcher world' = .ok b world'') ↔
        P ∧ ∃ world'', createAll os cls files world' = .ok () world'')) :
    (∃ b world', (createWatcher os cls file >>= rest) world = .ok b world') ↔
      P ∧ ∃ world', createAll os cls (file :: files) world = .ok () world' := by
  cases hcreate : createWatcher os cls file world with
  | error e world₁ =>
    rw [bind_of_error hcreate, createAll_cons_of_error os cls hcreate]
    simp
  | ok watcher world₁ =>
    rw [bind_of_ok hcreate, createAll_cons_of_ok os cls hcreate]
    exact hrest watcher world₁ hcreate

/-- **The loop from position `i` on**, when `r` watchers were taken. -/
theorem updateLoop_completes_iff {oldFiles : List Bytes} {old : List ω}
    (hlen : old.length = oldFiles.length) {files : List Bytes} {i r : Nat} (hr : r ≤ i)
    {newWatchers : List ω} (hnew : newWatchers.length = i) {world : W} :
    (∃ vectors world', updateLoop os cls (some oldFiles) i (leftOver old r) newWatchers files world
        = .ok vectors world') ↔
      (files = [] ∨ oldFiles = [] ∨ i + files.length ≤ oldFiles.length) ∧
        ∃ world', createAll os cls (differing (oldFiles.drop i) files) world = .ok () world' := by
  induction files generalizing i r newWatchers world with
  | nil =>
    rw [differing_nil_right]
    exact iff_of_true ⟨_, _, rfl⟩ ⟨.inl rfl, world, rfl⟩
  | cons file files ih =>
    rw [or_iff_right (List.cons_ne_nil file files)]
    cases turn_cases hr hlen file with
    | past hnone hempty hfind =>
      -- The old configuration has no file at this position, but it has some, so that the loop
      -- reads past its end.
      have hle := List.getElem?_eq_none_iff.mp hnone
      refine iff_of_false ?_ ?_
      · rintro ⟨_, _, h⟩
        rw [updateLoop_cons_error os cls hfind] at h
        cases h
      · rintro ⟨hnil | hlong, -⟩
        · exact hempty hnil
        · rw [List.length_cons] at hlong
          omega
    | create hne hin hfind =>
      rw [updateLoop_cons_new os cls hfind hnew, (differing_drop_of_ne hne files).2]
      refine completes_create_iff fun watcher world' _ => ?_
      rw [ih (by omega) (by simp [hnew]), fits_cons_iff hin]
    | reuse hsame hdrop hfind =>
      have hlt : i < oldFiles.length := (List.getElem?_eq_some_iff.mp hsame).1
      rw [updateLoop_cons_reuse os cls hfind hdrop, (differing_drop_of_eq hsame files).2,
        ih (by omega) (by simp [hnew]), fits_cons_iff (.inr hlt)]

/-- At the start, all the watchers are left. -/
theorem leftOver_zero (old : List ω) : leftOver old 0 = old.map some := by
  simp [leftOver]

/-- **A call completes** if the old configuration is not read past its end. -/
theorem updateWatchers_completes_iff {oldFiles newFiles : List Bytes} {old : List ω}
    (hlen : old.length = oldFiles.length) {world : W} :
    (∃ watchers world', updateWatchers os cls (some oldFiles) newFiles old world
        = .ok watchers world') ↔
      (oldFiles = [] ∨ newFiles.length ≤ oldFiles.length) ∧
        ∃ world', createAll os cls (differing oldFiles newFiles) world = .ok () world' := by
  have hloop : (∃ vectors world', updateLoop os cls (some oldFiles) 0 (leftOver old 0) [] newFiles
      world = .ok vectors world') ↔ _ := updateLoop_completes_iff hlen (Nat.le_refl 0) rfl
  rw [leftOver_zero, List.drop_zero, Nat.zero_add] at hloop
  have hfits : newFiles = [] ∨ oldFiles = [] ∨ newFiles.length ≤ oldFiles.length ↔
      oldFiles = [] ∨ newFiles.length ≤ oldFiles.length := by
    refine or_iff_right_of_imp ?_
    rintro rfl
    exact .inr (Nat.zero_le _)
  rw [← hfits, ← hloop]
  constructor
  · rintro ⟨watchers, world', h⟩
    obtain ⟨vectors, world₁, hrun, -⟩ := bind_eq_ok_iff.mp h
    exact ⟨vectors, world₁, hrun⟩
  · rintro ⟨⟨left, result⟩, world₁, hrun⟩
    exact ⟨result, deleteAll cls left world₁, bind_of_ok hrun⟩

/-! ### What a call deletes and creates -/

/-- The slots that are emptied are the first ones, as many as there are common positions. -/
theorem left_of_updateLoopWith {nonblock : (fd : Int) → EStateM Halt W Unit}
    {oldFiles : List Bytes} {old : List (Pointer ω)} (hlen : old.length = oldFiles.length)
    {files : List Bytes} {i r : Nat} (hr : r ≤ i) {newWatchers result : List (Pointer ω)}
    (hnew : newWatchers.length = i) {left : List (Option (Pointer ω))} {heap heap' : Heap W}
    (h : updateLoopWith undefinedRead (fun fd => Heap.lift (nonblock fd)) (Heap.watcherClass cls)
      (some oldFiles) i (leftOver old r) newWatchers files heap = .ok (left, result) heap') :
    left = leftOver old (r + (common (oldFiles.drop i) files).length) ∧
      heap'.created = heap.created ++ differing (oldFiles.drop i) files := by
  induction files generalizing i r newWatchers heap with
  | nil =>
    cases h
    simp
  | cons file files ih =>
    cases turn_cases hr hlen file with
    | past hnone hempty hfind =>
      unfold findReusable at hfind
      simp only [updateLoopWith, hfind] at h
      cases h
    | create hne hin hfind =>
      rw [updateLoopWith_cons_new _ _ hfind hnew] at h
      obtain ⟨pointer, heap₁, hmade, h⟩ := bind_eq_ok_iff.mp h
      obtain ⟨hleft, hcreated⟩ := ih (by omega) (by simp [hnew]) h
      obtain ⟨hcommon, hdiffering⟩ := differing_drop_of_ne hne files
      refine ⟨by rw [hleft, hcommon], ?_⟩
      rw [hcreated, hdiffering, (allocated_of_createWith hmade).created, List.append_assoc,
        List.singleton_append]
    | reuse hsame hdrop hfind =>
      rw [updateLoopWith_cons_reuse _ _ hfind (getElem?_leftOver hdrop), set_leftOver hdrop] at h
      obtain ⟨hleft, hcreated⟩ := ih (by omega) (by simp [hnew]) h
      obtain ⟨hcommon, hdiffering⟩ := differing_drop_of_eq hsame files
      refine ⟨?_, by rw [hcreated, hdiffering]⟩
      rw [hleft, hcommon, List.length_cons, Nat.add_assoc, Nat.add_comm 1]

/-- What is left is a suffix of the vector. -/
theorem reduceOption_leftOver (old : List ω) (r : Nat) :
    (leftOver old r).reduceOption = old.drop r := by
  rw [leftOver, List.reduceOption_append, List.reduceOption_replicate_none, reduceOption_map_some,
    List.nil_append]

/-- The watchers that are deleted, and the paths of those that are created. -/
theorem left_of_updateWatchers {oldFiles newFiles : List Bytes} {old result : List (Pointer ω)}
    (hlen : old.length = oldFiles.length) {heap heap' : Heap W}
    (h : Heap.updateWatchers undefinedRead os cls (some oldFiles) newFiles old heap =
      .ok result heap') :
    (∃ made, Transfer old heap (old.drop (common oldFiles newFiles).length) made result heap') ∧
      heap'.created = heap.created ++ differing oldFiles newFiles := by
  obtain ⟨⟨left, result'⟩, heap₁, hloop, h⟩ := bind_eq_ok_iff.mp h
  cases h
  obtain ⟨made, ht⟩ := transfer_of_updateLoopWith hloop
  rw [← leftOver_zero] at hloop
  obtain ⟨hleft, hcreated⟩ := left_of_updateLoopWith hlen (Nat.le_refl 0) List.length_nil hloop
  rw [List.drop_zero] at hcreated
  rw [List.drop_zero, Nat.zero_add] at hleft
  refine ⟨⟨made, ?_⟩, (deleteAll_heap cls left heap₁).1.trans hcreated⟩
  rw [← reduceOption_leftOver, ← hleft]
  exact ht

/-! ### What a reload should keep -/

variable (path : ω → Bytes)

/-- The call completes. The old watchers that are in the new vector are the same as before, and
there are as many of them, for each file, as both configurations can use. -/
def KeepsWatchers (os : Syscalls H W) (cls : WatcherClass W ω) (oldFiles newFiles : List Bytes)
    (old : List (Pointer ω)) (heap : Heap W) : Prop :=
  ∃ result heap', Heap.updateWatchers undefinedRead os cls (some oldFiles) newFiles old heap =
      .ok result heap' ∧
    (∀ w ∈ old, w.id ∈ result.map Pointer.id → w ∈ result) ∧
    ∀ file,
      old.countP (fun w => path w.watcher = file ∧ w.id ∈ result.map Pointer.id) =
          min (oldFiles.count file) (newFiles.count file) ∧
        (heap'.created.drop heap.created.length).count file =
          newFiles.count file - oldFiles.count file

variable {path}

/-- A call keeps the first of the old watchers. -/
theorem kept_of_updateWatchers {oldFiles newFiles : List Bytes} {old result : List (Pointer ω)}
    {heap heap' : Heap W} (howned : Owned old heap)
    (hold : old.map (fun w => path w.watcher) = oldFiles)
    (h : Heap.updateWatchers undefinedRead os cls (some oldFiles) newFiles old heap =
      .ok result heap') (file : Bytes) :
    old.countP (fun w => path w.watcher = file ∧ w.id ∈ result.map Pointer.id) =
        (oldFiles.take (common oldFiles newFiles).length).count file := by
  have hlen : old.length = oldFiles.length := by rw [← hold, List.length_map]
  obtain ⟨⟨made, ht⟩, -⟩ := left_of_updateWatchers hlen h
  have hshared := ht.shared howned
  generalize (common oldFiles newFiles).length = k at hshared ⊢
  -- The first ones are in the new vector, and the others are not.
  have hfirst : ∀ w ∈ old.take k, w.id ∈ result.map Pointer.id := by
    intro w hw
    have hmem : w.id ∈ (old ++ made).map Pointer.id :=
      List.mem_map_of_mem (List.mem_append_left _ (List.mem_of_mem_take hw))
    have hdistinct := howned.distinct
    rw [← List.take_append_drop k old, List.map_append] at hdistinct
    have hleft : w.id ∉ (old.drop k).map Pointer.id :=
      List.disjoint_of_nodup_append hdistinct (List.mem_map_of_mem hw)
    exact (hshared.mem_iff.mp hmem).resolve_left hleft
  have hrest : (old.drop k).countP
      (fun w => path w.watcher = file ∧ w.id ∈ result.map Pointer.id) = 0 := by
    rw [List.countP_eq_zero]
    intro w hw
    have hright : w.id ∉ result.map Pointer.id := fun hright =>
      hshared.notMem_left hright (List.mem_map_of_mem hw)
    simp only [hright, and_false, decide_false, Bool.false_eq_true, not_false_eq_true]
  rw [← List.take_append_drop k old, List.countP_append, hrest]
  rw [← hold, ← List.map_take, List.count, List.countP_map, Nat.add_zero]
  refine List.countP_congr fun w hw => ?_
  simp only [hfirst w hw, and_true, decide_eq_true_eq, Function.comp_apply, beq_iff_eq]

/-- A call on the heap completes when the call without identities does. -/
theorem heap_completes_iff {oldFiles newFiles : List Bytes} {old : List (Pointer ω)}
    (hlen : old.length = oldFiles.length) {heap : Heap W} :
    (∃ result heap', Heap.updateWatchers undefinedRead os cls (some oldFiles) newFiles old heap =
      .ok result heap') ↔
      (oldFiles = [] ∨ newFiles.length ≤ oldFiles.length) ∧
        ∃ world', createAll os cls (differing oldFiles newFiles) heap.world = .ok () world' := by
  have hlen' : (old.map Pointer.watcher).length = oldFiles.length := by rw [List.length_map, hlen]
  rw [← updateWatchers_completes_iff hlen']
  exact (mirrors_updateWatchers cls os (some oldFiles) newFiles old).ok_iff.symm

/-- The counts of one file. -/
theorem counts_iff (oldFiles newFiles : List Bytes) (file : Bytes) :
    ((oldFiles.take (common oldFiles newFiles).length).count file =
          min (oldFiles.count file) (newFiles.count file) ∧
        (differing oldFiles newFiles).count file = newFiles.count file - oldFiles.count file) ↔
      ¬ (file ∈ differing oldFiles newFiles ∧ file ∈ differing newFiles oldFiles) ∧
        (oldFiles.take (common oldFiles newFiles).length).count file =
          (common oldFiles newFiles).count file := by
  rw [← count_common_eq_min_iff]
  have hnew := count_eq oldFiles newFiles file
  omega

/-- **A reload keeps what it can**, when no file has only changed its position, and the first
watchers are those of the files that have not. -/
theorem keeps_watchers_iff {oldFiles newFiles : List Bytes} {old : List (Pointer ω)}
    {heap : Heap W} (howned : Owned old heap)
    (hold : old.map (fun w => path w.watcher) = oldFiles) :
    KeepsWatchers path os cls oldFiles newFiles old heap ↔
      (oldFiles = [] ∨ newFiles.length ≤ oldFiles.length) ∧
        (∃ world', createAll os cls (differing oldFiles newFiles) heap.world = .ok () world') ∧
          (∀ file ∈ differing oldFiles newFiles, file ∉ differing newFiles oldFiles) ∧
            (oldFiles.take (common oldFiles newFiles).length).Perm (common oldFiles newFiles) := by
  have hlen : old.length = oldFiles.length := by rw [← hold, List.length_map]
  -- What is kept and created for a file depends on the two lists of files only.
  have hcounts {result : List (Pointer ω)} {heap' : Heap W}
      (h : Heap.updateWatchers undefinedRead os cls (some oldFiles) newFiles old heap =
        .ok result heap') (file : Bytes) :
      (old.countP (fun w => path w.watcher = file ∧ w.id ∈ result.map Pointer.id) =
            min (oldFiles.count file) (newFiles.count file) ∧
          (heap'.created.drop heap.created.length).count file =
            newFiles.count file - oldFiles.count file) ↔
        ¬ (file ∈ differing oldFiles newFiles ∧ file ∈ differing newFiles oldFiles) ∧
          (oldFiles.take (common oldFiles newFiles).length).count file =
            (common oldFiles newFiles).count file := by
    obtain ⟨-, hcreated⟩ := left_of_updateWatchers hlen h
    rw [kept_of_updateWatchers howned hold h, hcreated, List.drop_left]
    exact counts_iff oldFiles newFiles file
  rw [← and_assoc, ← heap_completes_iff hlen]
  constructor
  · rintro ⟨result, heap', h, -, hkept⟩
    refine ⟨⟨result, heap', h⟩, ?_, ?_⟩
    · intro file hnew hold
      exact ((hcounts h file).mp (hkept file)).1 ⟨hnew, hold⟩
    · exact List.perm_iff_count.mpr fun file => ((hcounts h file).mp (hkept file)).2
  · rintro ⟨⟨result, heap', h⟩, hmoved, hperm⟩
    refine ⟨result, heap', h, ?_, ?_⟩
    · intro w hw hid
      obtain ⟨left, made, ht⟩ := transfer_of_updateWatchers h
      rcases (ht.conserved howned).fate w hw with ⟨hmem, -⟩ | ⟨hnot, -⟩
      · exact hmem
      · exact absurd hid hnot
    · intro file
      exact (hcounts h file).mpr ⟨fun hboth => hmoved file hboth.1 hboth.2, hperm.count_eq file⟩

end

/-! ### A file that is replaced -/

section
open Bytes

/-- Watchers of two files. -/
def twoWatchers : List (Pointer (InotifyWatcher Unit)) :=
  [⟨0, missing (lit "/a") (lit "a")⟩, ⟨1, missing (lit "/b") (lit "b")⟩]

def twoCreated : Heap Unit := ⟨[lit "/a", lit "/b"], [], ()⟩

/-- Two watchers that are owned. -/
theorem owned_twoWatchers : Owned twoWatchers twoCreated := by
  refine ⟨by decide, ?_, nofun⟩
  intro w hw
  simp [twoWatchers] at hw
  rcases hw with rfl | rfl
  · exact ⟨by decide, nofun⟩
  · exact ⟨by decide, nofun⟩

/-- The last of two files is removed. -/
theorem keeps_watchers_iff_removed :
    KeepsWatchers Watcher.path noFiles (inotifyClass noFiles) [lit "/a", lit "/b"] [lit "/a"]
        twoWatchers twoCreated ↔
      ([lit "/a", lit "/b"] = [] ∨ [lit "/a"].length ≤ [lit "/a", lit "/b"].length) ∧
        (∃ world', createAll noFiles (inotifyClass noFiles)
          (differing [lit "/a", lit "/b"] [lit "/a"]) twoCreated.world = .ok () world') ∧
          (∀ file ∈ differing [lit "/a", lit "/b"] [lit "/a"],
            file ∉ differing [lit "/a"] [lit "/a", lit "/b"]) ∧
            ([lit "/a", lit "/b"].take (common [lit "/a", lit "/b"] [lit "/a"]).length).Perm
              (common [lit "/a", lit "/b"] [lit "/a"]) :=
  keeps_watchers_iff owned_twoWatchers rfl

/-- `/c` takes the place of `/a`, and the watcher of `/b` is lost. -/
theorem not_keeps_watchers :
    Owned twoWatchers twoCreated ∧
      twoWatchers.map (fun w => w.watcher.path) = [lit "/a", lit "/b"] ∧
      ¬ KeepsWatchers Watcher.path noFiles (inotifyClass noFiles) [lit "/a", lit "/b"]
        [lit "/c", lit "/b"] twoWatchers twoCreated := by
  refine ⟨owned_twoWatchers, rfl, ?_⟩
  rintro ⟨result, heap', h, -, hkept⟩
  have hcount := (hkept (lit "/b")).1
  rw [kept_of_updateWatchers owned_twoWatchers rfl h] at hcount
  exact absurd hcount (by decide)

end

end Blockad.Proofs
