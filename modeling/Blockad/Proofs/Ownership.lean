import Blockad.Lib.Runs
import Blockad.Lib.Slots
import Blockad.Model.Ownership
import Blockad.Proofs.UpdateWatchers

/-!
# `Blockad.Proofs.Ownership`: `updateWatchers` conserves watchers

Watchers are in three vectors during a call, and each of them is in one place: in a slot of the old
vector, or in the new one. What is in no slot of the old vector at the end is not deleted. This does
not depend on which watchers are re-used, so it holds whatever is read past the end of the old
configuration.

* `mirrors_updateWatchers`: the calls on the heap are those of the model without identities.
* `watchers_conserved`: what becomes of each watcher in one call.
* `created_once`: over all reloads, each watcher ever created is in the vector, or it was
  deleted, once.
-/

set_option autoImplicit false

namespace Blockad.Proofs

open Prog Runs Slots

/-! ### Forgetting the identities -/

section
variable {W ω : Type} {stray : (i j : Nat) → Except Halt Bytes}
  (nonblock : (fd : Int) → EStateM Halt W Unit) (cls : WatcherClass W ω)

variable (stray) in
/-- Which slots are empty is all that the inner loop sees of the watchers. -/
theorem findReusableWith_map {ω' : Type} (f : ω → ω') (oldFiles : Option (List Bytes))
    (oldWatchers : List (Option ω)) (i : Nat) (file : Bytes) :
    findReusableWith stray oldFiles (oldWatchers.map (Option.map f)) i file =
      findReusableWith stray oldFiles oldWatchers i file := by
  have hloop (oldFiles : List Bytes) (j : Nat) :
      reuseLoopWith stray oldFiles (oldWatchers.map (Option.map f)) i file j =
        reuseLoopWith stray oldFiles oldWatchers i file j := by
    fun_induction reuseLoopWith stray oldFiles oldWatchers i file j <;> rw [reuseLoopWith] <;>
      simp_all
  cases oldFiles with
  | none => rfl
  | some oldFiles => simp only [findReusableWith, hloop]

/-- What neither creates nor deletes. -/
theorem mirrors_lift {β : Type} (p : EStateM Halt W β) :
    Mirrors id Heap.world (Heap.lift p) p := by
  intro heap
  simp only [Heap.lift]
  cases p heap.world <;> rfl

/-- A new watcher, without its identity. -/
theorem mirrors_new (path : Bytes) :
    Mirrors Pointer.watcher Heap.world ((Heap.watcherClass cls).new path) (cls.new path) := by
  rw [← bind_pure (cls.new path)]
  exact (mirrors_lift _).bind fun _ _ => rfl

/-- The same, made nonblocking. -/
theorem mirrors_createWith (file : Bytes) :
    Mirrors Pointer.watcher Heap.world
      (createWith (fun fd => Heap.lift (nonblock fd)) (Heap.watcherClass cls) file)
      (createWith nonblock cls file) := by
  refine (mirrors_new cls file).bind fun pointer => ?_
  exact .ite ((mirrors_lift _).bind fun _ => .of_pure pointer) (.of_pure pointer)

/-- What is seen of the vectors. -/
def watchersOf (vectors : List (Option (Pointer ω)) × List (Pointer ω)) :
    List (Option ω) × List ω :=
  (vectors.1.map (Option.map Pointer.watcher), vectors.2.map Pointer.watcher)

variable (stray) in
/-- **The outer loop**, by induction on the new files. -/
theorem mirrors_updateLoopWith (oldFiles : Option (List Bytes)) (files : List Bytes) {i : Nat}
    (oldWatchers : List (Option (Pointer ω))) (newWatchers : List (Pointer ω))
    (hlen : newWatchers.length = i) :
    Mirrors watchersOf Heap.world
      (updateLoopWith stray (fun fd => Heap.lift (nonblock fd)) (Heap.watcherClass cls) oldFiles i
        oldWatchers newWatchers files)
      (updateLoopWith stray nonblock cls oldFiles i
        (oldWatchers.map (Option.map Pointer.watcher)) (newWatchers.map Pointer.watcher)
        files) := by
  induction files generalizing i oldWatchers newWatchers with
  | nil => exact .of_pure (f := watchersOf) (oldWatchers, newWatchers)
  | cons file files ih =>
    have hfind := findReusableWith_map stray Pointer.watcher oldFiles oldWatchers i file
    cases hfound : findReusableWith stray oldFiles oldWatchers i file with
    | error h =>
      simp only [updateLoopWith, hfind, hfound]
      exact .of_throw h
    | ok found =>
      rw [hfound] at hfind
      cases found with
      | none =>
        rw [updateLoopWith_cons_new _ _ hfound hlen,
          updateLoopWith_cons_new _ _ hfind (by rw [List.length_map, hlen])]
        refine (mirrors_createWith nonblock cls file).bind fun pointer => ?_
        have hrest := ih (i := i + 1) oldWatchers (newWatchers ++ [pointer]) (by simp [hlen])
        rwa [List.map_append] at hrest
      | some j =>
        -- The same slot is taken on both sides, and emptied.
        obtain ⟨pointer, hslot⟩ := exists_of_findReusableWith hfound
        have hslot' : (oldWatchers.map (Option.map Pointer.watcher))[j]? =
            some (some pointer.watcher) := by simp [hslot]
        rw [updateLoopWith_cons_reuse _ _ hfound hslot,
          updateLoopWith_cons_reuse _ _ hfind hslot']
        have hrest := ih (i := i + 1) (oldWatchers.set j none) (newWatchers ++ [pointer])
          (by simp [hlen])
        rwa [List.map_append, List.map_set] at hrest

/-- The watchers that are left are deleted in the same order. -/
theorem world_deleteAll (left : List (Option (Pointer ω))) (heap : Heap W) :
    (deleteAll (Heap.watcherClass cls) left heap).world =
      deleteAll cls (left.map (Option.map Pointer.watcher)) heap.world := by
  induction left generalizing heap with
  | nil => rfl
  | cons slot left ih =>
    cases slot with
    | none => exact ih heap
    | some pointer => exact ih _

/-- **The calls on the heap**, without what the heap knows. -/
theorem mirrors_updateWatchers {H : Type} (os : Syscalls H W) (oldFiles : Option (List Bytes))
    (newFiles : List Bytes) (oldWatchers : List (Pointer ω)) :
    Mirrors (List.map Pointer.watcher) Heap.world
      (Heap.updateWatchers undefinedRead os cls oldFiles newFiles oldWatchers)
      (updateWatchers os cls oldFiles newFiles (oldWatchers.map Pointer.watcher)) := by
  have hloop := mirrors_updateLoopWith undefinedRead (nonblock os) cls oldFiles newFiles
    (oldWatchers.map some) [] rfl
  rw [List.map_map] at hloop
  have hslots : (oldWatchers.map Pointer.watcher).map some =
      oldWatchers.map (Option.map Pointer.watcher ∘ some) := by simp
  unfold Heap.updateWatchers updateWatchers updateWatchersWith
  rw [hslots]
  refine hloop.bind fun (left, result) => ?_
  exact (Mirrors.of_modify (world_deleteAll cls left)).bind fun _ =>
    .of_pure (f := List.map Pointer.watcher) result

end

/-! ### Conservation -/

section
variable {W ω : Type} {nonblock : (fd : Int) → EStateM Halt W Unit} {cls : WatcherClass W ω}

/-- Nothing is created or deleted. -/
theorem of_lift_eq_ok {β : Type} {p : EStateM Halt W β} {heap heap' : Heap W} {b : β}
    (h : Heap.lift p heap = .ok b heap') :
    heap'.created = heap.created ∧ heap'.deleted = heap.deleted := by
  unfold Heap.lift at h
  split at h
  · cases h
    exact ⟨rfl, rfl⟩
  · cases h

/-- A watcher was made: it has the next identity. -/
structure Allocated (file : Bytes) (heap heap' : Heap W) (pointer : Pointer ω) : Prop where
  id : pointer.id = heap.created.length
  created : heap'.created = heap.created ++ [file]
  deleted : heap'.deleted = heap.deleted

/-- A new watcher gets the next identity. -/
theorem allocated_of_createWith {file : Bytes} {heap heap' : Heap W} {pointer : Pointer ω}
    (h : createWith (fun fd => Heap.lift (nonblock fd)) (Heap.watcherClass cls) file heap =
      .ok pointer heap') : Allocated file heap heap' pointer := by
  obtain ⟨pointer', heap₁, hnew, h⟩ := bind_eq_ok_iff.mp h
  obtain ⟨watcher, heap₂, hlift, hpush⟩ := bind_eq_ok_iff.mp hnew
  obtain ⟨hcreated, hdeleted⟩ := of_lift_eq_ok hlift
  cases hpush
  have hmade {heap' : Heap W} (hcreated' : heap'.created = heap₂.created ++ [file])
      (hdeleted' : heap'.deleted = heap₂.deleted) :
      Allocated file heap heap' (⟨heap₂.created.length, watcher⟩ : Pointer ω) :=
    ⟨by rw [hcreated], by rw [hcreated', hcreated], by rw [hdeleted', hdeleted]⟩
  dsimp only at h
  split at h
  · obtain ⟨_, heap₃, hnonblock, h⟩ := bind_eq_ok_iff.mp h
    obtain ⟨hcreated', hdeleted'⟩ := of_lift_eq_ok hnonblock
    cases h
    exact hmade (by rw [hcreated']) hdeleted'
  · cases h
    exact hmade rfl rfl

/-- The invariant of a call: the watchers in the vectors are the old ones and those that it made,
each of them once. -/
structure Accounts (old : List (Pointer ω)) (heap heap' : Heap W)
    (here made : List (Pointer ω)) : Prop where
  perm : here.Perm (old ++ made)
  ids : made.map Pointer.id = List.range' heap.created.length made.length
  created : heap'.created.length = heap.created.length + made.length
  deleted : heap'.deleted = heap.deleted

/-- One more watcher that the call made. -/
theorem Accounts.made {old here made : List (Pointer ω)} {heap heap₁ heap' : Heap W}
    {pointer : Pointer ω} {file : Bytes} (h : Accounts old heap heap₁ here made)
    (hmade : Allocated file heap₁ heap' pointer) :
    Accounts old heap heap' (here ++ [pointer]) (made ++ [pointer]) where
  perm := by
    rw [← List.append_assoc]
    exact h.perm.append_right [pointer]
  ids := by
    rw [List.map_append, h.ids, List.length_append, List.length_singleton, List.range'_concat]
    simp [hmade.id, h.created]
  created := by
    simp [hmade.created, h.created, Nat.add_assoc]
  deleted := hmade.deleted.trans h.deleted

/-- **The loop**, by induction on the new files. -/
theorem accounts_of_updateLoopWith {stray : (i j : Nat) → Except Halt Bytes}
    {oldFiles : Option (List Bytes)} {files : List Bytes} {i : Nat} {old : List (Pointer ω)}
    {oldWatchers left : List (Option (Pointer ω))} {newWatchers result : List (Pointer ω)}
    {heap heap₁ heap' : Heap W} {made : List (Pointer ω)} (hlen : newWatchers.length = i)
    (hacc : Accounts old heap heap₁ (oldWatchers.reduceOption ++ newWatchers) made)
    (h : updateLoopWith stray (fun fd => Heap.lift (nonblock fd)) (Heap.watcherClass cls) oldFiles i
      oldWatchers newWatchers files heap₁ = .ok (left, result) heap') :
    ∃ made, Accounts old heap heap' (left.reduceOption ++ result) made := by
  induction files generalizing i oldWatchers newWatchers heap₁ made with
  | nil =>
    cases h
    exact ⟨made, hacc⟩
  | cons file files ih =>
    cases hfind : findReusableWith stray oldFiles oldWatchers i file with
    | error e =>
      simp only [updateLoopWith, hfind] at h
      cases h
    | ok found =>
      cases found with
      | none =>
        rw [updateLoopWith_cons_new _ _ hfind hlen] at h
        obtain ⟨pointer, heap₂, hcreate, h⟩ := bind_eq_ok_iff.mp h
        have hmade := hacc.made (allocated_of_createWith hcreate)
        rw [List.append_assoc] at hmade
        exact ih (by simp [hlen]) hmade h
      | some j =>
        obtain ⟨pointer, hslot⟩ := exists_of_findReusableWith hfind
        rw [updateLoopWith_cons_reuse _ _ hfind hslot] at h
        -- The watcher leaves its slot, and nothing else changes.
        have hmoved := (perm_of_take hslot).trans hacc.perm
        exact ih (by simp [hlen]) ⟨hmoved, hacc.ids, hacc.created, hacc.deleted⟩ h

variable (cls) in
/-- What is left is deleted, and nothing else. -/
theorem deleteAll_heap (left : List (Option (Pointer ω))) (heap : Heap W) :
    (deleteAll (Heap.watcherClass cls) left heap).created = heap.created ∧
      (deleteAll (Heap.watcherClass cls) left heap).deleted =
        heap.deleted ++ left.reduceOption.map Pointer.id := by
  induction left generalizing heap with
  | nil => simp [deleteAll]
  | cons slot left ih =>
    cases slot with
    | none => exact ih heap
    | some pointer =>
      obtain ⟨hcreated, hdeleted⟩ := ih ((Heap.watcherClass cls).delete pointer heap)
      refine ⟨hcreated, hdeleted.trans ?_⟩
      simp [Heap.watcherClass]

/-- What a call does with the pointers: it makes some, keeps some, and deletes those that are
left. -/
structure Transfer (old : List (Pointer ω)) (heap : Heap W) (left made result : List (Pointer ω))
    (heap' : Heap W) : Prop where
  perm : (left ++ result).Perm (old ++ made)
  ids : made.map Pointer.id = List.range' heap.created.length made.length
  created : heap'.created.length = heap.created.length + made.length
  deleted : heap'.deleted = heap.deleted ++ left.map Pointer.id

/-- What the loop leaves is deleted after it. -/
theorem transfer_of_updateLoopWith {stray : (i j : Nat) → Except Halt Bytes}
    {oldFiles : Option (List Bytes)} {newFiles : List Bytes} {old result : List (Pointer ω)}
    {left : List (Option (Pointer ω))} {heap heap' : Heap W}
    (h : updateLoopWith stray (fun fd => Heap.lift (nonblock fd)) (Heap.watcherClass cls) oldFiles 0
      (old.map some) [] newFiles heap = .ok (left, result) heap') :
    ∃ made, Transfer old heap left.reduceOption made result
      (deleteAll (Heap.watcherClass cls) left heap') := by
  have hstart : Accounts old heap heap ((old.map some).reduceOption ++ []) [] := by
    refine ⟨?_, rfl, rfl, rfl⟩
    rw [reduceOption_map_some]
  obtain ⟨made, hacc⟩ := accounts_of_updateLoopWith rfl hstart h
  obtain ⟨hcreated, hdeleted⟩ := deleteAll_heap cls left heap'
  refine ⟨made, hacc.perm, hacc.ids, ?_, ?_⟩
  · exact (congrArg List.length hcreated).trans hacc.created
  · exact hdeleted.trans (by rw [hacc.deleted])

/-- **A call that completes.** -/
theorem transfer_of_updateWatchers {H : Type} {os : Syscalls H W}
    {stray : (i j : Nat) → Except Halt Bytes} {oldFiles : Option (List Bytes)}
    {newFiles : List Bytes} {old result : List (Pointer ω)} {heap heap' : Heap W}
    (h : Heap.updateWatchers stray os cls oldFiles newFiles old heap = .ok result heap') :
    ∃ left made, Transfer old heap left made result heap' := by
  obtain ⟨⟨left, result'⟩, heap₁, hloop, h⟩ := bind_eq_ok_iff.mp h
  cases h
  exact ⟨_, transfer_of_updateLoopWith hloop⟩

/-! ### One call -/

/-- The entries of the vector are distinct and live. -/
structure Owned (watchers : List (Pointer ω)) (heap : Heap W) : Prop where
  distinct : (watchers.map Pointer.id).Nodup
  live : ∀ w ∈ watchers, heap.Live w.id
  /-- Only what was created was deleted. -/
  deleted_lt : ∀ id ∈ heap.deleted, id < heap.created.length

namespace Transfer

variable {old left made result : List (Pointer ω)} {heap heap' : Heap W} {w : Pointer ω}

/-- Every watcher is left or kept. -/
theorem mem_iff (h : Transfer old heap left made result heap') :
    w ∈ old ∨ w ∈ made ↔ w ∈ left ∨ w ∈ result := by
  rw [← List.mem_append, ← List.mem_append, h.perm.mem_iff]

/-- What the call made is new. -/
theorem made_bounds (h : Transfer old heap left made result heap') {id : Nat}
    (hid : id ∈ made.map Pointer.id) :
    heap.created.length ≤ id ∧ id < heap'.created.length := by
  rw [h.ids, List.mem_range'_1] at hid
  rw [h.created]
  exact hid

/-- Those that are deleted are the ones that are left. -/
theorem mem_deleted_iff (h : Transfer old heap left made result heap') {id : Nat} :
    id ∈ heap'.deleted ↔ id ∈ heap.deleted ∨ id ∈ left.map Pointer.id := by
  rw [h.deleted, List.mem_append]

/-- No pointer is in two places. -/
theorem shared (h : Transfer old heap left made result heap') (howned : Owned old heap) :
    Shared (left.map Pointer.id) (result.map Pointer.id) ((old ++ made).map Pointer.id) := by
  have hperm := h.perm.map Pointer.id
  rw [List.map_append] at hperm
  refine ⟨hperm, ?_⟩
  rw [List.map_append]
  refine howned.distinct.append (by rw [h.ids]; exact List.nodup_range') ?_
  -- An old identity is below those that the call gives out.
  intro id hold hmade
  obtain ⟨w, hw, rfl⟩ := List.mem_map.mp hold
  have hlt := (howned.live w hw).1
  have hle := (h.made_bounds hmade).1
  omega

/-- What is in the new vector is live. -/
theorem live (h : Transfer old heap left made result heap') (howned : Owned old heap)
    (hw : w ∈ result) : heap'.Live w.id := by
  have hleft : w.id ∉ left.map Pointer.id :=
    (h.shared howned).notMem_left (List.mem_map_of_mem hw)
  rw [Heap.Live, h.mem_deleted_iff]
  rcases h.mem_iff.mpr (.inr hw) with hold | hmade
  · obtain ⟨hlt, hnot⟩ := howned.live w hold
    have hcreated := h.created
    exact ⟨by omega, fun hdeleted => hdeleted.elim hnot hleft⟩
  · obtain ⟨hle, hlt⟩ := h.made_bounds (List.mem_map_of_mem hmade)
    refine ⟨hlt, ?_⟩
    rintro (hdeleted | hdeleted)
    · have hold := howned.deleted_lt _ hdeleted
      omega
    · exact hleft hdeleted

end Transfer

/-- What becomes of the watchers in a call. -/
structure Conserved (old : List (Pointer ω)) (heap : Heap W) (result : List (Pointer ω))
    (heap' : Heap W) : Prop where
  distinct : (result.map Pointer.id).Nodup
  live : ∀ w ∈ result, heap'.Live w.id
  /-- An entry is an old watcher, or it was created in the call. -/
  origin : ∀ w ∈ result, w ∈ old ∨ heap.created.length ≤ w.id
  /-- An old watcher is kept, or it is deleted, once. -/
  fate : ∀ w ∈ old,
    (w ∈ result ∧ (result.map Pointer.id).count w.id = 1 ∧ w.id ∉ heap'.deleted) ∨
      (w.id ∉ result.map Pointer.id ∧ heap'.deleted.count w.id = 1)

/-- What becomes of watchers that were owned. -/
theorem Transfer.conserved {old left made result : List (Pointer ω)} {heap heap' : Heap W}
    (h : Transfer old heap left made result heap') (howned : Owned old heap) :
    Conserved old heap result heap' := by
  have hshared := h.shared howned
  refine ⟨hshared.nodup_right, fun w => h.live howned, ?_, ?_⟩
  · intro w hw
    rcases h.mem_iff.mpr (.inr hw) with hold | hmade
    · exact .inl hold
    · exact .inr (h.made_bounds (List.mem_map_of_mem hmade)).1
  · intro w hw
    have hnot : w.id ∉ heap.deleted := (howned.live w hw).2
    rcases h.mem_iff.mp (.inl hw) with hleft | hresult
    · have hid : w.id ∈ left.map Pointer.id := List.mem_map_of_mem hleft
      refine .inr ⟨fun hright => hshared.notMem_left hright hid, ?_⟩
      rw [h.deleted, List.count_append, List.count_eq_zero.mpr hnot,
        List.count_eq_one_of_mem hshared.nodup_left hid]
    · have hid : w.id ∈ result.map Pointer.id := List.mem_map_of_mem hresult
      refine .inl ⟨hresult, List.count_eq_one_of_mem hshared.nodup_right hid, ?_⟩
      rw [h.mem_deleted_iff]
      exact fun hdeleted => hdeleted.elim hnot (hshared.notMem_left hid)

/-- **Watchers are conserved.** -/
theorem watchers_conserved {H : Type} {os : Syscalls H W} {stray : (i j : Nat) → Except Halt Bytes}
    {oldFiles : Option (List Bytes)} {newFiles : List Bytes} {old result : List (Pointer ω)}
    {heap heap' : Heap W} (howned : Owned old heap)
    (h : Heap.updateWatchers stray os cls oldFiles newFiles old heap = .ok result heap') :
    Conserved old heap result heap' := by
  obtain ⟨left, made, ht⟩ := transfer_of_updateWatchers h
  exact ht.conserved howned

end

section
open Bytes

/-- A watcher of a file that does not exist. -/
def missing (path base : Bytes) : InotifyWatcher Unit :=
  ⟨path, none, [], ⟨base, lit "/", 3, -1, 1⟩⟩

/-- Where `/b` is inserted before `/a`, the read past the end gives `/a` by chance. -/
theorem updateWatchers_inserted :
    Heap.updateWatchers (fun _ _ => .ok (lit "/a")) noFiles (inotifyClass noFiles)
        (some [lit "/a"]) [lit "/b", lit "/a"] [⟨0, missing (lit "/a") (lit "a")⟩]
        ⟨[lit "/a"], [], ()⟩ =
      .ok [⟨1, missing (lit "/b") (lit "b")⟩, ⟨0, missing (lit "/a") (lit "a")⟩]
        ⟨[lit "/a", lit "/b"], [], ()⟩ := by
  have hnone (slots : List (Option (Pointer (InotifyWatcher Unit)))) :
      findReusableWith (fun _ _ => .ok (lit "/a")) (some [lit "/a"]) slots 0 (lit "/b") =
        .ok none := by
    rw [findReusableWith, reuseLoopWith, reuseLoopWith]
    rfl
  have hsome (pointer : Pointer (InotifyWatcher Unit)) :
      findReusableWith (fun _ _ => .ok (lit "/a")) (some [lit "/a"]) [some pointer] 1
        (lit "/a") = .ok (some 0) := by
    rw [findReusableWith, reuseLoopWith]
    rfl
  simp only [Heap.updateWatchers, updateWatchersWith, List.map_cons, List.map_nil]
  rw [updateLoopWith_cons_new _ _ (hnone _) rfl]
  simp only [updateLoopWith_cons_reuse _ _ (hsome _) rfl]
  rfl

/-- A new watcher before one that is kept. -/
theorem watchers_conserved_inserted :
    Conserved [⟨0, missing (lit "/a") (lit "a")⟩] (⟨[lit "/a"], [], ()⟩ : Heap Unit)
      [⟨1, missing (lit "/b") (lit "b")⟩, ⟨0, missing (lit "/a") (lit "a")⟩]
      ⟨[lit "/a", lit "/b"], [], ()⟩ :=
  watchers_conserved ⟨by simp, by simp [Heap.Live], by simp⟩ updateWatchers_inserted

end

/-! ### All reloads -/

section
variable {H W ω : Type}

/-- The pointers of the daemon, with the files of its configuration. -/
structure Holding (W ω : Type) where
  files : Option (List Bytes)
  watchers : List (Pointer ω)
  heap : Heap W

/-- What happens: a call, or anything that neither creates nor deletes watchers. -/
inductive Holds where
  | update (files : List Bytes)
  | other

variable (stray : (i j : Nat) → Except Halt Bytes) (os : Syscalls H W) (cls : WatcherClass W ω)

/-- No watcher was created yet. -/
def Empty (s : Holding W ω) : Prop :=
  s.files = none ∧ s.watchers = [] ∧ s.heap.created = [] ∧ s.heap.deleted = []

inductive HoldingStep : Holding W ω → Holds → Holding W ω → Prop where
  | update {s : Holding W ω} {files : List Bytes} {watchers : List (Pointer ω)} {heap : Heap W}
      (h : Heap.updateWatchers stray os cls s.files files s.watchers s.heap = .ok watchers heap) :
      HoldingStep s (.update files) ⟨some files, watchers, heap⟩
  | other {s : Holding W ω} {watchers : List (Pointer ω)} (world : W)
      (hids : watchers.map Pointer.id = s.watchers.map Pointer.id) :
      HoldingStep s .other { s with watchers, heap.world := world }

/-- The watchers that were created are those in the vector and those that were deleted. -/
def Accounted (s : Holding W ω) : Prop :=
  Shared (s.watchers.map Pointer.id) s.heap.deleted (List.range s.heap.created.length)

variable {stray os cls}

/-- The watchers of the vector are owned. -/
theorem owned_of_accounted {s : Holding W ω} (h : Accounted s) : Owned s.watchers s.heap where
  distinct := h.nodup_left
  live := by
    intro w hw
    have hid : w.id ∈ s.watchers.map Pointer.id := List.mem_map_of_mem hw
    have hcreated := h.mem_iff.mpr (.inl hid)
    exact ⟨List.mem_range.mp hcreated, fun hdeleted => h.notMem_left hdeleted hid⟩
  deleted_lt := by
    intro id hid
    exact List.mem_range.mp (h.mem_iff.mpr (.inr hid))

/-- A call keeps the account. -/
theorem accounted_of_transfer {s : Holding W ω} {files : List Bytes}
    {left made watchers : List (Pointer ω)} {heap : Heap W} (hs : Accounted s)
    (h : Transfer s.watchers s.heap left made watchers heap) :
    Accounted ⟨files, watchers, heap⟩ := by
  refine ⟨?_, List.nodup_range⟩
  have hpointers := h.perm.map Pointer.id
  rw [List.map_append, List.map_append, h.ids] at hpointers
  -- The identities that the call gives out follow on the earlier ones.
  have hrange := List.range'_append_1 (s := 0) (m := s.heap.created.length) (n := made.length)
  rw [Nat.zero_add, ← List.range_eq_range', ← List.range_eq_range', ← h.created] at hrange
  show (watchers.map Pointer.id ++ heap.deleted).Perm (List.range heap.created.length)
  rw [h.deleted, ← hrange]
  exact (perm_of_discard s.heap.deleted hpointers).trans (hs.perm.append_right _)

/-- **One step.** -/
theorem accounted_step {s s' : Holding W ω} {e : Holds} (hs : Accounted s)
    (h : HoldingStep stray os cls s e s') : Accounted s' := by
  cases h with
  | update h =>
    obtain ⟨left, made, ht⟩ := transfer_of_updateWatchers h
    exact accounted_of_transfer hs ht
  | other world hids =>
    unfold Accounted at hs ⊢
    rw [hids]
    exact hs

/-- **In every state** that is reached. -/
theorem accounted_of_reachable {s : Holding W ω}
    (h : Reachable Empty (HoldingStep stray os cls) s) : Accounted s := by
  refine h.invariant (fun s hs => ?_) fun _ _ _ => accounted_step
  obtain ⟨-, hwatchers, hcreated, hdeleted⟩ := hs
  unfold Accounted
  rw [hwatchers, hcreated, hdeleted]
  exact ⟨List.Perm.refl _, List.nodup_nil⟩

/-- **No watcher leaks, and none is deleted twice.** -/
theorem created_once {s : Holding W ω} (h : Reachable Empty (HoldingStep stray os cls) s)
    {id : Nat} (hid : id < s.heap.created.length) :
    ((s.watchers.map Pointer.id).count id = 1 ∧ id ∉ s.heap.deleted) ∨
      (id ∉ s.watchers.map Pointer.id ∧ s.heap.deleted.count id = 1) := by
  have hs := accounted_of_reachable h
  rcases hs.mem_iff.mp (List.mem_range.mpr hid) with hwatchers | hdeleted
  · refine .inl ⟨List.count_eq_one_of_mem hs.nodup_left hwatchers, ?_⟩
    exact fun hdeleted => hs.notMem_left hdeleted hwatchers
  · exact .inr ⟨hs.notMem_left hdeleted, List.count_eq_one_of_mem hs.nodup_right hdeleted⟩

end

end Blockad.Proofs
