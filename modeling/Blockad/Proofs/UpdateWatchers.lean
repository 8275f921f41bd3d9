import Blockad.Lib.Matching
import Blockad.Model.Main
import Blockad.Proofs.Watcher
import Mathlib.Data.List.Chain

/-!
# `Blockad.Proofs.UpdateWatchers`: which watchers a reload keeps

`updateWatchers` compares file `i` of the new configuration with file `i` of the old one, and
then takes the first old watcher that is left over, whatever its path. So the slots of the
old vector are used up from the front: before file `i`, as many as there are earlier
positions where the two configurations agree (`rank`).

* `findReusable_eq`: what the inner loop finds.
* `updateLoop_tracks_iff`: the step lemma and its induction over the new files.
* `updateWatchers_tracks_iff`: the call completes and the new vector follows the new
  configuration exactly when the two configurations pair up and the needed watchers can be
  created.
* `watchers_follow_iff`: the same for any sequence of configurations.
-/

set_option autoImplicit false

namespace Blockad.Proofs

open Matching Prog

/-! ### Configurations that pair up -/

/-- The two configurations have the same file at a position. -/
def Agree (oldFiles newFiles : List Bytes) (i : Nat) : Prop :=
  i < newFiles.length ∧ newFiles[i]? = oldFiles[i]?

instance (oldFiles newFiles : List Bytes) (i : Nat) : Decidable (Agree oldFiles newFiles i) :=
  inferInstanceAs (Decidable (_ ∧ _))

/-- The number of positions before `i` where they agree. -/
def rank (oldFiles newFiles : List Bytes) (i : Nat) : Nat :=
  (List.range i).countP (Agree oldFiles newFiles ·)

/-- Position `i` gets a watcher of its file. -/
def PairsAt (oldFiles newFiles : List Bytes) (i : Nat) : Prop :=
  (oldFiles = [] ∨ i < oldFiles.length) ∧
    (Agree oldFiles newFiles i → oldFiles[rank oldFiles newFiles i]? = oldFiles[i]?)

/-- Every position does. -/
def PairsUp (oldFiles newFiles : List Bytes) : Prop :=
  ∀ i < newFiles.length, PairsAt oldFiles newFiles i

instance (oldFiles newFiles : List Bytes) : Decidable (PairsUp oldFiles newFiles) :=
  inferInstanceAs (Decidable (∀ i < newFiles.length, _ ∧ (_ → _)))

/-- One more position, which counts if the configurations agree there. -/
theorem rank_succ (oldFiles newFiles : List Bytes) (i : Nat) :
    rank oldFiles newFiles (i + 1)
      = rank oldFiles newFiles i + if Agree oldFiles newFiles i then 1 else 0 := by
  simp [rank, List.range_succ, List.countP_append, List.countP_singleton]

/-- No more positions count than there are. -/
theorem rank_le (oldFiles newFiles : List Bytes) (i : Nat) : rank oldFiles newFiles i ≤ i := by
  have h : (List.range i).countP (Agree oldFiles newFiles ·) ≤ (List.range i).length :=
    List.countP_le_length
  rwa [List.length_range] at h

/-- The positions from `i` on are `i` itself and those after it. -/
theorem pairsAt_from_iff {oldFiles newFiles : List Bytes} {i : Nat} (hi : i < newFiles.length) :
    (∀ k, i ≤ k → k < newFiles.length → PairsAt oldFiles newFiles k) ↔
      PairsAt oldFiles newFiles i ∧
        ∀ k, i + 1 ≤ k → k < newFiles.length → PairsAt oldFiles newFiles k := by
  constructor
  · intro h
    exact ⟨h i le_rfl hi, fun k hk => h k (by omega)⟩
  · rintro ⟨hhere, hlater⟩ k hk hlt
    rcases Nat.eq_or_lt_of_le hk with rfl | hk
    · exact hhere
    · exact hlater k hk hlt

/-! ### The inner loop -/

section
variable {ω : Type}

/-- An index inside of the old configuration. -/
theorem fileAt_of_some {stray : (i j : Nat) → Except Halt Bytes} {oldFiles : List Bytes}
    {i j : Nat} {oldFile : Bytes} (hold : oldFiles[i]? = some oldFile) :
    fileAt stray oldFiles i j = .ok oldFile := by
  rw [fileAt, hold]

/-- A file that differs from the old one at its position gets no old watcher. -/
theorem reuseLoop_of_ne {oldFiles : List Bytes} {oldWatchers : List (Option ω)} {i : Nat}
    {file oldFile : Bytes} (hold : oldFiles[i]? = some oldFile) (hne : file ≠ oldFile) (j : Nat)
    (hj : j ≤ oldFiles.length) :
    reuseLoop oldFiles oldWatchers i file j = .ok oldFiles.length := by
  unfold reuseLoop
  fun_induction reuseLoopWith undefinedRead oldFiles oldWatchers i file j with
  | case1 j hlt e hread => cases (fileAt_of_some hold).symm.trans hread
  | case5 j hlt oldFile' hread hbeq ih => exact ih (by omega)
  | case6 j hge => exact congrArg _ (by omega)
  | _ =>
    -- The other cases are those of equal files.
    simp_all [fileAt]

/-- A file that is the old one at its position gets the first watcher that is left. -/
theorem reuseLoop_of_eq {oldFiles : List Bytes} {oldWatchers : List ω} {i r : Nat}
    {file : Bytes} (hold : oldFiles[i]? = some file) (hr : r < oldFiles.length)
    (hlen : oldWatchers.length = oldFiles.length) (j : Nat) (hj : j ≤ r) :
    reuseLoop oldFiles (List.replicate r none ++ (oldWatchers.drop r).map some) i file j
      = .ok r := by
  unfold reuseLoop
  fun_induction reuseLoopWith undefinedRead oldFiles
    (List.replicate r none ++ (oldWatchers.drop r).map some) i file j with
  | case1 j hlt e hread => cases (fileAt_of_some hold).symm.trans hread
  | case2 j hlt oldFile hread hbeq hnone =>
    -- The vector is as long as the configuration.
    simp [hlen] at hnone
    omega
  | case3 j hlt oldFile hread hbeq w hsome =>
    rcases Nat.lt_or_ge j r with hjr | hjr
    · rw [List.getElem?_append_left (by simpa using hjr)] at hsome
      simp [hjr] at hsome
    · exact congrArg _ (by omega)
  | case4 j hlt oldFile hread hbeq hnull ih =>
    -- An empty slot is passed over. The one at `r` is not empty.
    refine ih (Nat.lt_of_le_of_ne hj ?_)
    rintro rfl
    rw [List.getElem?_append_right (by simp)] at hnull
    simp at hnull
  | case5 j hlt oldFile hread hbeq ih =>
    cases (fileAt_of_some hold).symm.trans hread
    simp at hbeq
  | case6 j hge => omega

/-- The old vector when its first `r` watchers were taken. -/
def leftOver (oldWatchers : List ω) (r : Nat) : List (Option ω) :=
  List.replicate r none ++ (oldWatchers.drop r).map some

/-- The first slot that is not empty. -/
theorem getElem?_leftOver {oldWatchers rest : List ω} {r : Nat} {watcher : ω}
    (hdrop : oldWatchers.drop r = watcher :: rest) :
    (leftOver oldWatchers r)[r]? = some (some watcher) := by
  simp [leftOver, hdrop]

/-- One more watcher is taken. -/
theorem set_leftOver {oldWatchers rest : List ω} {r : Nat} {watcher : ω}
    (hdrop : oldWatchers.drop r = watcher :: rest) :
    (leftOver oldWatchers r).set r none = leftOver oldWatchers (r + 1) := by
  have hrest : oldWatchers.drop (r + 1) = rest := by
    rw [← List.tail_drop, hdrop, List.tail_cons]
  simp [leftOver, hdrop, hrest, List.replicate_succ']

/-- What there is to find in an old configuration. -/
theorem findReusable_some (oldFiles : List Bytes) (oldWatchers : List (Option ω)) (i : Nat)
    (file : Bytes) :
    findReusable (some oldFiles) oldWatchers i file =
      match reuseLoop oldFiles oldWatchers i file 0 with
      | .error h => .error h
      | .ok j => .ok (if j < oldFiles.length then some j else none) := rfl

/-- What the inner loop finds, at a position that the old configuration has. -/
theorem findReusable_eq {oldFiles : List Bytes} {oldWatchers : List ω} {i r : Nat}
    {oldFile : Bytes} (hold : oldFiles[i]? = some oldFile) (hr : r ≤ i)
    (hlen : oldWatchers.length = oldFiles.length) (file : Bytes) :
    findReusable (some oldFiles) (leftOver oldWatchers r) i file
      = .ok (if file = oldFile then some r else none) := by
  have hi : i < oldFiles.length := (List.getElem?_eq_some_iff.mp hold).1
  rw [findReusable_some]
  by_cases hfile : file = oldFile
  · subst hfile
    rw [leftOver, reuseLoop_of_eq hold (by omega) hlen 0 (Nat.zero_le r)]
    simp [show r < oldFiles.length by omega]
  · rw [reuseLoop_of_ne hold hfile 0 (Nat.zero_le _)]
    simp [hfile]

/-- At a position past its end, the old configuration is read out of range, unless it has no
file at all. -/
theorem findReusable_of_none {oldFiles : List Bytes} {i : Nat} (hold : oldFiles[i]? = none)
    (file : Bytes) (oldWatchers : List (Option ω)) :
    findReusable (some oldFiles) oldWatchers i file
      = if oldFiles = [] then .ok none else .error .undefined := by
  rw [findReusable_some, reuseLoop, reuseLoopWith]
  cases oldFiles with
  | nil => rfl
  | cons f fs => simp [fileAt, undefinedRead, hold]

/-- What a turn of the outer loop does at position `i`, when `r` watchers were taken. -/
inductive TurnCase (oldFiles : List Bytes) (oldWatchers : List ω) (i r : Nat) (file : Bytes) :
    Prop where
  /-- The old configuration is read past its end. -/
  | past (hold : oldFiles[i]? = none) (hsome : oldFiles ≠ [])
      (hfind : findReusable (some oldFiles) (leftOver oldWatchers r) i file = .error .undefined)
  /-- The file differs from the old one, and gets a new watcher. -/
  | create (hold : oldFiles[i]? ≠ some file) (hin : oldFiles = [] ∨ i < oldFiles.length)
      (hfind : findReusable (some oldFiles) (leftOver oldWatchers r) i file = .ok none)
  /-- The file is the old one, and gets the first watcher that is left, whichever file it is
  for. -/
  | reuse {watcher : ω} {rest : List ω} (hold : oldFiles[i]? = some file)
      (hdrop : oldWatchers.drop r = watcher :: rest)
      (hfind : findReusable (some oldFiles) (leftOver oldWatchers r) i file = .ok (some r))

/-- **Every turn** is one of these cases. -/
theorem turn_cases {oldFiles : List Bytes} {oldWatchers : List ω} {i r : Nat} (hr : r ≤ i)
    (hlen : oldWatchers.length = oldFiles.length) (file : Bytes) :
    TurnCase oldFiles oldWatchers i r file := by
  cases hold : oldFiles[i]? with
  | none =>
    have hfind := findReusable_of_none hold file (leftOver oldWatchers r)
    by_cases hempty : oldFiles = []
    · rw [if_pos hempty] at hfind
      exact .create (by simp [hold]) (.inl hempty) hfind
    · rw [if_neg hempty] at hfind
      exact .past hold hempty hfind
  | some oldFile =>
    have hlt : i < oldFiles.length := (List.getElem?_eq_some_iff.mp hold).1
    have hfind := findReusable_eq hold hr hlen file
    by_cases hsame : file = oldFile
    · subst hsame
      rw [if_pos rfl] at hfind
      exact .reuse hold (List.drop_eq_getElem_cons (by omega)) hfind
    · rw [if_neg hsame] at hfind
      refine .create ?_ (.inr hlt) hfind
      rw [hold]
      exact fun h => hsame (Option.some.inj h).symm

end

/-! ### The outer loop -/

/-- A new watcher, with its descriptor made nonblocking. -/
def createWith {W ω : Type} (nonblock : (fd : Int) → EStateM Halt W Unit) (cls : WatcherClass W ω)
    (file : Bytes) : EStateM Halt W ω := do
  let watcher ← cls.new file
  let fd := cls.pollfd watcher
  if fd ≥ 0 then nonblock fd
  return watcher

section
variable {W ω : Type} {stray : (i j : Nat) → Except Halt Bytes}
  (nonblock : (fd : Int) → EStateM Halt W Unit) (cls : WatcherClass W ω)

/-- A turn that reads past the end. -/
theorem updateLoopWith_cons_error {oldFiles : Option (List Bytes)} {i : Nat}
    {oldWatchers : List (Option ω)} {newWatchers : List ω} {file : Bytes} {files : List Bytes}
    {h : Halt} (hfind : findReusableWith stray oldFiles oldWatchers i file = .error h) :
    updateLoopWith stray nonblock cls oldFiles i oldWatchers newWatchers (file :: files) =
      throw h := by
  simp only [updateLoopWith, hfind]

/-- A turn that makes a watcher. -/
theorem updateLoopWith_cons_new {oldFiles : Option (List Bytes)} {i : Nat}
    {oldWatchers : List (Option ω)} {newWatchers : List ω} {file : Bytes} {files : List Bytes}
    (hfind : findReusableWith stray oldFiles oldWatchers i file = .ok none)
    (hlen : newWatchers.length = i) :
    updateLoopWith stray nonblock cls oldFiles i oldWatchers newWatchers (file :: files) = (do
      let watcher ← createWith nonblock cls file
      updateLoopWith stray nonblock cls oldFiles (i + 1) oldWatchers (newWatchers ++ [watcher])
        files) := by
  subst hlen
  simp only [updateLoopWith, hfind, createWith, bind_assoc, List.getElem?_concat_length]
  refine bind_congr fun watcher => ?_
  split <;> simp

/-- A turn that takes an old watcher. -/
theorem updateLoopWith_cons_reuse {oldFiles : Option (List Bytes)} {i j : Nat}
    {oldWatchers : List (Option ω)} {newWatchers : List ω} {file : Bytes} {files : List Bytes}
    {watcher : ω} (hfind : findReusableWith stray oldFiles oldWatchers i file = .ok (some j))
    (hslot : oldWatchers[j]? = some (some watcher)) :
    updateLoopWith stray nonblock cls oldFiles i oldWatchers newWatchers (file :: files) =
      updateLoopWith stray nonblock cls oldFiles (i + 1) (oldWatchers.set j none)
        (newWatchers ++ [watcher]) files := by
  simp only [updateLoopWith, hfind, hslot]

/-- The inner loop stops at a watcher. -/
theorem exists_of_findReusableWith {oldFiles : Option (List Bytes)} {i j : Nat}
    {oldWatchers : List (Option ω)} {file : Bytes}
    (hfind : findReusableWith stray oldFiles oldWatchers i file = .ok (some j)) :
    ∃ watcher, oldWatchers[j]? = some (some watcher) := by
  have hloop (oldFiles : List Bytes) (j₀ : Nat)
      (h : reuseLoopWith stray oldFiles oldWatchers i file j₀ = .ok j) (hj : j < oldFiles.length) :
      ∃ watcher, oldWatchers[j]? = some (some watcher) := by
    -- The loop leaves an empty slot only to go on.
    fun_induction reuseLoopWith stray oldFiles oldWatchers i file j₀ <;> grind
  cases oldFiles with
  | none => cases hfind
  | some oldFiles =>
    rw [findReusableWith] at hfind
    cases hrun : reuseLoopWith stray oldFiles oldWatchers i file 0 with
    | error h => simp [hrun] at hfind
    | ok j' =>
      simp [hrun] at hfind
      obtain ⟨hlt, rfl⟩ := hfind
      exact hloop oldFiles 0 hrun hlt

end

section
variable {H W ω : Type} (os : Syscalls H W) (cls : WatcherClass W ω)

/-- A new watcher, made nonblocking by `nonblock`. -/
def createWatcher (file : Bytes) : EStateM Halt W ω := createWith (nonblock os) cls file

/-- The new watchers of a reload, one after the other. -/
def createAll (files : List Bytes) : EStateM Halt W Unit :=
  files.forM fun file => do let _ ← createWatcher os cls file

/-- The lists from a position on, where they differ. -/
theorem differing_drop_of_ne {oldFiles : List Bytes} {i : Nat} {file : Bytes}
    (h : oldFiles[i]? ≠ some file) (files : List Bytes) :
    common (oldFiles.drop i) (file :: files) = common (oldFiles.drop (i + 1)) files ∧
      differing (oldFiles.drop i) (file :: files) =
        file :: differing (oldFiles.drop (i + 1)) files := by
  cases hold : oldFiles[i]? with
  | none =>
    have hle := List.getElem?_eq_none_iff.mp hold
    simp [List.drop_eq_nil_of_le hle, List.drop_eq_nil_of_le (Nat.le_succ_of_le hle), common]
  | some oldFile =>
    obtain ⟨hlt, hget⟩ := List.getElem?_eq_some_iff.mp hold
    have hne : oldFile ≠ file := fun heq => h (by rw [hold, heq])
    rw [List.drop_eq_getElem_cons hlt, hget]
    exact ⟨common_cons_of_ne hne .., differing_cons_of_ne hne ..⟩

/-- The lists from a position on, where they agree. -/
theorem differing_drop_of_eq {oldFiles : List Bytes} {i : Nat} {file : Bytes}
    (h : oldFiles[i]? = some file) (files : List Bytes) :
    common (oldFiles.drop i) (file :: files) = file :: common (oldFiles.drop (i + 1)) files ∧
      differing (oldFiles.drop i) (file :: files) = differing (oldFiles.drop (i + 1)) files := by
  obtain ⟨hlt, rfl⟩ := List.getElem?_eq_some_iff.mp h
  rw [List.drop_eq_getElem_cons hlt]
  exact ⟨common_cons_self .., differing_cons_self ..⟩

/-- The same, where a read past the end is undefined behavior. -/
theorem updateLoop_cons_error {oldFiles : Option (List Bytes)} {i : Nat}
    {oldWatchers : List (Option ω)} {newWatchers : List ω} {file : Bytes} {files : List Bytes}
    {h : Halt} (hfind : findReusable oldFiles oldWatchers i file = .error h) :
    updateLoop os cls oldFiles i oldWatchers newWatchers (file :: files) = throw h :=
  updateLoopWith_cons_error (nonblock os) cls hfind

/-- A turn that makes a watcher. -/
theorem updateLoop_cons_new {oldFiles : Option (List Bytes)} {i : Nat}
    {oldWatchers : List (Option ω)} {newWatchers : List ω} {file : Bytes} {files : List Bytes}
    (hfind : findReusable oldFiles oldWatchers i file = .ok none) (hlen : newWatchers.length = i) :
    updateLoop os cls oldFiles i oldWatchers newWatchers (file :: files) = (do
      let watcher ← createWatcher os cls file
      updateLoop os cls oldFiles (i + 1) oldWatchers (newWatchers ++ [watcher]) files) :=
  updateLoopWith_cons_new (nonblock os) cls hfind hlen

/-- A turn that takes the first watcher that is left. -/
theorem updateLoop_cons_reuse {oldFiles : List Bytes} {i r : Nat} {oldWatchers newWatchers : List ω}
    {file : Bytes} {files : List Bytes} {watcher : ω} {rest : List ω}
    (hfind : findReusable (some oldFiles) (leftOver oldWatchers r) i file = .ok (some r))
    (hdrop : oldWatchers.drop r = watcher :: rest) :
    updateLoop os cls (some oldFiles) i (leftOver oldWatchers r) newWatchers (file :: files)
      = updateLoop os cls (some oldFiles) (i + 1) (leftOver oldWatchers (r + 1))
          (newWatchers ++ [watcher]) files := by
  rw [← set_leftOver hdrop]
  exact updateLoopWith_cons_reuse (nonblock os) cls hfind (getElem?_leftOver hdrop)

/-- The new vector only grows. -/
theorem prefix_of_updateLoop {oldFiles : Option (List Bytes)} {files : List Bytes} {i : Nat}
    {oldWatchers left : List (Option ω)} {newWatchers result : List ω} {world world' : W}
    (hlen : newWatchers.length = i)
    (h : updateLoop os cls oldFiles i oldWatchers newWatchers files world
      = .ok (left, result) world') : newWatchers <+: result := by
  induction files generalizing i oldWatchers newWatchers world with
  | nil =>
    cases h
    exact List.prefix_rfl
  | cons file files ih =>
    cases hfind : findReusable oldFiles oldWatchers i file with
    | error e =>
      rw [updateLoop_cons_error os cls hfind] at h
      cases h
    | ok found =>
      cases found with
      | none =>
        rw [updateLoop_cons_new os cls hfind hlen] at h
        obtain ⟨watcher, world₁, -, h⟩ := bind_eq_ok_iff.mp h
        exact (List.prefix_append _ _).trans (ih (by simp [hlen]) h)
      | some j =>
        obtain ⟨watcher, hslot⟩ := exists_of_findReusableWith hfind
        unfold updateLoop at h
        rw [updateLoopWith_cons_reuse (nonblock os) cls hfind hslot] at h
        exact (List.prefix_append _ _).trans (ih (by simp [hlen]) h)

variable (path : ω → Bytes)

/-- The new vector follows the new configuration. -/
def Tracks (newFiles : List Bytes) (call : EStateM Halt W (List (Option ω) × List ω))
    (world : W) : Prop :=
  ∃ left watchers world', call world = .ok (left, watchers) world' ∧ watchers.map path = newFiles

variable {path}

/-- A new watcher watches the file that it was made for. -/
theorem path_of_createWatcher
    (hnew : ∀ {file world watcher world'}, cls.new file world = .ok watcher world' →
      path watcher = file)
    {file : Bytes} {world world' : W} {watcher : ω}
    (h : createWatcher os cls file world = .ok watcher world') : path watcher = file := by
  obtain ⟨w, world₁, hw, h⟩ := bind_eq_ok_iff.mp h
  dsimp only at h
  split at h
  · obtain ⟨-, world₂, -, h⟩ := bind_eq_ok_iff.mp h
    cases h
    exact hnew hw
  · cases h
    exact hnew hw

/-- The first watcher is made. -/
theorem createAll_cons_of_ok {file : Bytes} {files : List Bytes} {world world' : W} {watcher : ω}
    (h : createWatcher os cls file world = .ok watcher world') :
    createAll os cls (file :: files) world = createAll os cls files world' := by
  have hfile : (do let _ ← createWatcher os cls file : EStateM Halt W Unit) world = .ok () world' :=
    bind_of_ok h
  exact bind_of_ok hfile

/-- The first watcher cannot be made. -/
theorem createAll_cons_of_error {file : Bytes} {files : List Bytes} {world world' : W} {e : Halt}
    (h : createWatcher os cls file world = .error e world') :
    createAll os cls (file :: files) world = .error e world' := by
  have hfile : (do let _ ← createWatcher os cls file : EStateM Halt W Unit) world
      = .error e world' := bind_of_error h
  exact bind_of_error hfile

/-- One turn that needs a new watcher: it must be created, and the rest must go well. -/
theorem tracks_create_iff {newFiles : List Bytes} {file : Bytes} {files : List Bytes}
    {rest : ω → EStateM Halt W (List (Option ω) × List ω)} {world : W} {P : Prop}
    (hrest : ∀ watcher world', createWatcher os cls file world = .ok watcher world' →
      (Tracks path newFiles (rest watcher) world' ↔
        P ∧ ∃ world'', createAll os cls files world' = .ok () world'')) :
    Tracks path newFiles (createWatcher os cls file >>= rest) world ↔
      P ∧ ∃ world', createAll os cls (file :: files) world = .ok () world' := by
  unfold Tracks at hrest ⊢
  cases hcreate : createWatcher os cls file world with
  | error e world₁ =>
    rw [bind_of_error hcreate, createAll_cons_of_error os cls hcreate]
    simp
  | ok watcher world₁ =>
    rw [bind_of_ok hcreate, createAll_cons_of_ok os cls hcreate]
    exact hrest watcher world₁ hcreate

/-- A wrong watcher stays in the new vector, whatever happens afterwards. -/
theorem not_tracks_of_ne {oldFiles : Option (List Bytes)} {newFiles files : List Bytes} {i : Nat}
    {oldWatchers : List (Option ω)} {newWatchers : List ω} {watcher : ω} {file : Bytes} {world : W}
    (hlen : newWatchers.length = i) (hfile : newFiles[i]? = some file)
    (hpath : path watcher ≠ file) :
    ¬ Tracks path newFiles
      (updateLoop os cls oldFiles (i + 1) oldWatchers (newWatchers ++ [watcher]) files) world := by
  rintro ⟨left, result, world', h, htracks⟩
  obtain ⟨more, rfl⟩ := prefix_of_updateLoop os cls (by simp [hlen]) h
  refine hpath (Option.some.inj ?_)
  rw [← hfile, ← htracks]
  simp [hlen]

/-- **The loop from position `i` on.** -/
theorem updateLoop_tracks_iff
    (hnew : ∀ {file world watcher world'}, cls.new file world = .ok watcher world' →
      path watcher = file)
    {oldFiles newFiles : List Bytes} {oldWatchers : List ω} (hold : oldWatchers.map path = oldFiles)
    {files : List Bytes} {i : Nat} {newWatchers : List ω} {world : W}
    (hfiles : newFiles.drop i = files) (hdone : newWatchers.map path = newFiles.take i)
    (hi : i ≤ newFiles.length) :
    Tracks path newFiles (updateLoop os cls (some oldFiles) i
        (leftOver oldWatchers (rank oldFiles newFiles i)) newWatchers files) world ↔
      (∀ k, i ≤ k → k < newFiles.length → PairsAt oldFiles newFiles k) ∧
        ∃ world', createAll os cls (differing (oldFiles.drop i) files) world = .ok () world' := by
  have hlen : newWatchers.length = i := by
    have hmap := congrArg List.length hdone
    simpa [hi] using hmap
  have holdlen : oldWatchers.length = oldFiles.length := by
    rw [← hold, List.length_map]
  induction files generalizing i newWatchers world with
  | nil =>
    have hend : newFiles.length ≤ i := List.drop_eq_nil_iff.mp hfiles
    refine iff_of_true ⟨_, _, _, rfl, ?_⟩ ⟨fun k hk hlt => by omega, world, ?_⟩
    · rw [hdone, List.take_of_length_le hend]
    · rw [differing_nil_right]
      rfl
  | cons file files ih =>
    have hfile : newFiles[i]? = some file := by
      rw [← List.head?_drop, hfiles, List.head?_cons]
    have hlt : i < newFiles.length := (List.getElem?_eq_some_iff.mp hfile).1
    have hrest : newFiles.drop (i + 1) = files := by
      rw [← List.tail_drop, hfiles, List.tail_cons]
    have htake : newFiles.take (i + 1) = newFiles.take i ++ [file] := by
      rw [List.take_add_one, hfile]
      rfl
    rw [pairsAt_from_iff hlt]
    cases turn_cases (rank_le oldFiles newFiles i) holdlen file with
    | past hnone hempty hfind =>
      refine iff_of_false ?_ ?_
      · rintro ⟨_, _, _, h, -⟩
        rw [updateLoop_cons_error os cls hfind] at h
        cases h
      · rintro ⟨⟨⟨hnil | hlong, -⟩, -⟩, -⟩
        · exact hempty hnil
        · rw [List.getElem?_eq_getElem hlong] at hnone
          cases hnone
    | create hne hin hfind =>
      have hagree : ¬ Agree oldFiles newFiles i := by
        rintro ⟨-, h⟩
        exact hne (h.symm.trans hfile)
      have hpairs : PairsAt oldFiles newFiles i := ⟨hin, fun h => absurd h hagree⟩
      rw [updateLoop_cons_new os cls hfind hlen, and_iff_right hpairs,
        (differing_drop_of_ne hne files).2]
      refine tracks_create_iff os cls fun watcher world' hmade => ?_
      have hrank : rank oldFiles newFiles (i + 1) = rank oldFiles newFiles i := by
        rw [rank_succ, if_neg hagree, Nat.add_zero]
      rw [← hrank]
      refine ih hrest ?_ hlt (by simp [hlen])
      rw [List.map_append, hdone, htake, List.map_singleton,
        path_of_createWatcher os cls hnew hmade]
    | @reuse watcher rest hsame hdrop hfind =>
      have hagree : Agree oldFiles newFiles i := ⟨hlt, by rw [hfile, hsame]⟩
      have hslot : oldFiles[rank oldFiles newFiles i]? = some (path watcher) := by
        rw [← List.head?_drop, ← hold, ← List.map_drop, hold, hdrop]
        rfl
      rw [updateLoop_cons_reuse os cls hfind hdrop, (differing_drop_of_eq hsame files).2]
      have hrank : rank oldFiles newFiles (i + 1) = rank oldFiles newFiles i + 1 := by
        rw [rank_succ, if_pos hagree]
      by_cases hpath : path watcher = file
      · have hlong : i < oldFiles.length := (List.getElem?_eq_some_iff.mp hsame).1
        have hpairs : PairsAt oldFiles newFiles i :=
          ⟨.inr hlong, fun _ => by rw [hslot, hpath, hsame]⟩
        rw [and_iff_right hpairs, ← hrank]
        refine ih hrest ?_ hlt (by simp [hlen])
        rw [List.map_append, hdone, htake, List.map_singleton, hpath]
      · -- The slot that is taken belongs to another file.
        refine iff_of_false (not_tracks_of_ne os cls hlen hfile hpath) ?_
        rintro ⟨⟨⟨-, hpair⟩, -⟩, -⟩
        have hpair := hpair hagree
        rw [hslot, hsame] at hpair
        exact hpath (Option.some.inj hpair)

/-- **One call.** With watchers that follow the old configuration, it completes with
watchers that follow the new one exactly when the configurations pair up and the needed
watchers can be created. -/
theorem updateWatchers_tracks_iff
    (hnew : ∀ {file world watcher world'}, cls.new file world = .ok watcher world' →
      path watcher = file)
    {oldFiles : List Bytes} {oldWatchers : List ω} (hold : oldWatchers.map path = oldFiles)
    (newFiles : List Bytes) (world : W) :
    (∃ watchers world', updateWatchers os cls (some oldFiles) newFiles oldWatchers world
        = .ok watchers world' ∧ watchers.map path = newFiles) ↔
      PairsUp oldFiles newFiles ∧
        ∃ world', createAll os cls (differing oldFiles newFiles) world = .ok () world' := by
  have hstart : leftOver oldWatchers (rank oldFiles newFiles 0) = oldWatchers.map some := by
    simp [leftOver, rank]
  have hloop : Tracks path newFiles
      (updateLoop os cls (some oldFiles) 0 (oldWatchers.map some) [] newFiles) world ↔ _ :=
    hstart ▸ updateLoop_tracks_iff os cls hnew hold List.drop_zero rfl (Nat.zero_le _)
  have hpairs : (∀ k, 0 ≤ k → k < newFiles.length → PairsAt oldFiles newFiles k) ↔
      PairsUp oldFiles newFiles := ⟨fun h k => h k (Nat.zero_le k), fun h k _ => h k⟩
  rw [List.drop_zero] at hloop
  rw [← hpairs, ← hloop]
  constructor
  · rintro ⟨watchers, world', h, htracks⟩
    obtain ⟨⟨left, result⟩, world₁, hrun, h⟩ := bind_eq_ok_iff.mp h
    cases h
    exact ⟨left, _, world₁, hrun, htracks⟩
  · rintro ⟨left, watchers, world₁, hrun, htracks⟩
    exact ⟨watchers, deleteAll cls left world₁, bind_of_ok hrun, htracks⟩

/-- Without an old configuration, all watchers are new. -/
theorem updateWatchers_none (newFiles : List Bytes) :
    updateWatchers os cls none newFiles [] = updateWatchers os cls (some []) newFiles [] := by
  have hloop (files : List Bytes) {i : Nat} {newWatchers : List ω}
      (hlen : newWatchers.length = i) : updateLoop os cls none i [] newWatchers files
        = updateLoop os cls (some []) i [] newWatchers files := by
    induction files generalizing i newWatchers with
    | nil => rfl
    | cons file files ih =>
      have hfind : findReusable (some []) ([] : List (Option ω)) i file = .ok none := by
        rw [findReusable_of_none rfl, if_pos rfl]
      rw [updateLoop_cons_new os cls rfl hlen, updateLoop_cons_new os cls hfind hlen]
      exact bind_congr fun watcher => ih (by simp [hlen])
  show (updateLoop os cls none 0 [] [] newFiles >>= _) =
    updateLoop os cls (some []) 0 [] [] newFiles >>= _
  rw [hloop newFiles List.length_nil]

/-- Nothing is read out of range without old files. -/
theorem pairsUp_nil (newFiles : List Bytes) : PairsUp [] newFiles := by
  refine fun i hi => ⟨.inl rfl, fun hagree => ?_⟩
  simp [Agree, hi] at hagree

/-! ### Sequences of configurations -/

/-- The start with the first configuration and a reload for each of the others. -/
def updates (oldFiles : Option (List Bytes)) (watchers : List ω) :
    List (List Bytes) → EStateM Halt W (List ω)
  | [] => pure watchers
  | files :: configs => do
    let watchers ← updateWatchers os cls oldFiles files watchers
    updates (some files) watchers configs

/-- The watchers follow the configuration after each of the calls. -/
def AllTrack (path : ω → Bytes) (oldFiles : Option (List Bytes)) (watchers : List ω) (world : W)
    (configs : List (List Bytes)) : Prop :=
  ∀ k files, configs[k]? = some files → ∃ watchers' world',
    updates os cls oldFiles watchers (configs.take (k + 1)) world = .ok watchers' world' ∧
      watchers'.map path = files

/-- The first call, and the others after it. -/
theorem allTrack_cons {oldFiles : Option (List Bytes)} {watchers : List ω} {world : W}
    {files : List Bytes} {configs : List (List Bytes)} :
    AllTrack os cls path oldFiles watchers world (files :: configs) ↔
      ∃ watchers' world', updateWatchers os cls oldFiles files watchers world
        = .ok watchers' world' ∧ watchers'.map path = files ∧
          AllTrack os cls path (some files) watchers' world' configs := by
  constructor
  · intro h
    obtain ⟨watchers', world', hrun, htracks⟩ := h 0 files rfl
    obtain ⟨first, world₁, hfirst, hrun⟩ := bind_eq_ok_iff.mp hrun
    cases hrun
    refine ⟨watchers', world', hfirst, htracks, ?_⟩
    intro k files' hk
    obtain ⟨watchers'', world'', hrun, htracks'⟩ := h (k + 1) files' hk
    rw [List.take_succ_cons, updates, bind_of_ok hfirst] at hrun
    exact ⟨watchers'', world'', hrun, htracks'⟩
  · rintro ⟨watchers', world', hfirst, htracks, hrest⟩ k files' hk
    rw [List.take_succ_cons, updates, bind_of_ok hfirst]
    cases k with
    | zero =>
      cases hk
      exact ⟨watchers', world', rfl, htracks⟩
    | succ k => exact hrest k files' hk

/-- Where every watcher can be created, all the needed ones can. -/
theorem exists_createAll
    (hcreate : ∀ file world, ∃ watcher world',
      createWatcher os cls file world = .ok watcher world')
    (files : List Bytes) (world : W) : ∃ world', createAll os cls files world = .ok () world' := by
  induction files generalizing world with
  | nil => exact ⟨world, rfl⟩
  | cons file files ih =>
    obtain ⟨watcher, world₁, hfile⟩ := hcreate file world
    rw [createAll_cons_of_ok os cls hfile]
    exact ih world₁

/-- The run lemma: every consecutive pair of configurations must pair up. -/
theorem allTrack_iff
    (hnew : ∀ {file world watcher world'}, cls.new file world = .ok watcher world' →
      path watcher = file)
    (hcreate : ∀ file world, ∃ watcher world',
      createWatcher os cls file world = .ok watcher world')
    {oldFiles : List Bytes} {watchers : List ω} (hold : watchers.map path = oldFiles) (world : W)
    (configs : List (List Bytes)) :
    AllTrack os cls path (some oldFiles) watchers world configs ↔
      (oldFiles :: configs).IsChain PairsUp := by
  induction configs generalizing oldFiles watchers world with
  | nil => exact iff_of_true (fun k files hk => by cases hk) (.singleton _)
  | cons files configs ih =>
    have hcall := updateWatchers_tracks_iff os cls hnew hold files world
    rw [allTrack_cons, List.isChain_cons_cons]
    constructor
    · rintro ⟨watchers', world', hrun, htracks, hrest⟩
      exact ⟨(hcall.mp ⟨watchers', world', hrun, htracks⟩).1, (ih htracks world').mp hrest⟩
    · rintro ⟨hpairs, hchain⟩
      obtain ⟨watchers', world', hrun, htracks⟩ :=
        hcall.mpr ⟨hpairs, exists_createAll os cls hcreate _ world⟩
      exact ⟨watchers', world', hrun, htracks, (ih htracks world').mpr hchain⟩

/-- The same for the start of the daemon, which finds no old configuration. -/
theorem allTrack_none_iff
    (hnew : ∀ {file world watcher world'}, cls.new file world = .ok watcher world' →
      path watcher = file)
    (hcreate : ∀ file world, ∃ watcher world',
      createWatcher os cls file world = .ok watcher world')
    (world : W) (configs : List (List Bytes)) :
    AllTrack os cls path none [] world configs ↔ configs.IsChain PairsUp := by
  cases configs with
  | nil => exact iff_of_true (fun k files hk => by cases hk) .nil
  | cons files configs =>
    have hsome := allTrack_iff os cls hnew hcreate List.map_nil world (files :: configs)
    rw [List.isChain_cons_cons, and_iff_right (pairsUp_nil files)] at hsome
    rw [← hsome, allTrack_cons, allTrack_cons, updateWatchers_none]

end

/-! ### The daemon's watchers -/

section
variable {H W : Type} (os : Syscalls H W)

/-- **The watchers of every sequence of configurations.** With watchers that can always be
created, each call completes, without an index out of range, and leaves one watcher for each
file of its configuration, exactly when each configuration pairs up with the one before. -/
theorem watchers_follow_iff
    (hcreate : ∀ file world, ∃ watcher world',
      createWatcher os (inotifyClass os) file world = .ok watcher world')
    (world : W) (configs : List (List Bytes)) :
    AllTrack os (inotifyClass os) Watcher.path none [] world configs ↔ configs.IsChain PairsUp :=
  allTrack_none_iff os (inotifyClass os) (fun h => path_of_construct os h) hcreate world configs

end

/-- A kernel without files, where every other call succeeds. -/
def noFiles : Syscalls Unit Unit where
  inotifyInit := pure 3
  inotifyAddWatch _ _ _ := pure 1
  inotifyRmWatch _ _ := pure ()
  readEvents _ := pure []
  close _ := id
  fcntlGetfl _ := pure false
  fcntlSetfl _ := pure ()
  fopen _ := throw .ENOENT
  fclose _ := id
  seekEnd _ := pure 0
  unread _ _ _ := ([], none)

/-- Where no file exists, a watcher can be made. -/
theorem createWatcher_noFiles (file : Bytes) (world : Unit) : ∃ watcher world',
    createWatcher noFiles (inotifyClass noFiles) file world = .ok watcher world' :=
  ⟨_, _, rfl⟩

/-- Two configurations of two files each. -/
theorem watchers_follow_iff_noFiles :
    AllTrack noFiles (inotifyClass noFiles) Watcher.path none [] ()
        [[Bytes.lit "/a", Bytes.lit "/b"], [Bytes.lit "/a", Bytes.lit "/c"]] ↔
      [[Bytes.lit "/a", Bytes.lit "/b"], [Bytes.lit "/a", Bytes.lit "/c"]].IsChain PairsUp :=
  watchers_follow_iff noFiles createWatcher_noFiles () _

/-- When a file is added, the comparison reads past the end of the old configuration. When
`/a` is replaced before `/b`, the watcher of `/a` is taken for `/b`. -/
theorem not_watchers_follow :
    ¬ AllTrack noFiles (inotifyClass noFiles) Watcher.path none [] ()
        [[Bytes.lit "/a"], [Bytes.lit "/a", Bytes.lit "/b"]] ∧
      ¬ AllTrack noFiles (inotifyClass noFiles) Watcher.path none [] ()
        [[Bytes.lit "/a", Bytes.lit "/b"], [Bytes.lit "/c", Bytes.lit "/b"]] := by
  have hiff := allTrack_none_iff noFiles (inotifyClass noFiles)
    (fun h => path_of_construct noFiles h) createWatcher_noFiles ()
  rw [hiff, hiff, List.isChain_cons_cons, List.isChain_cons_cons]
  decide

end Blockad.Proofs
