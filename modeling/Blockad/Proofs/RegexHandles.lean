import Blockad.Lib.Runs
import Blockad.Model.RegexHandles

/-!
# `Blockad.Proofs.RegexHandles`: the reference counts

`Exact` is the invariant of the handles: `RefCount.Counted`, for the numbers of handles that point
to each compiled object. An operation on a handle first lets go of its object (`drop_eq`), and then
takes another one (`acquire_eq`); in between, the handle counts as one without an object.

* `correct_iff`: an operation keeps the invariant if and only if it is `Careful`.
* `compile_not_exact`: after any other `compile`, an object is deleted too early or never.
* `refcounts_exact`: both, for all runs.
-/

set_option autoImplicit false

namespace Blockad.Proofs

open Bytes RefCount Regexes Runs

/-! ### Owners -/

/-- How many handles point to an object. -/
def ownersOf (handles : List (Option (Option Nat))) (id : Nat) : Nat :=
  handles.count (some (some id))

/-- A handle that points to no object. -/
def Free (handle : Option (Option Nat)) : Prop := ∀ id, handle ≠ some (some id)

section
variable {handles : List (Option (Option Nat))} {this id : Nat} {x y : Option (Option Nat)}

/-- A handle that was destroyed has no object. -/
theorem free_none : Free none := nofun

/-- A handle without a pattern has none either. -/
theorem free_null : Free (some none) := nofun

/-- A new handle without an object changes no count. -/
theorem ownersOf_concat (hx : Free x) : ownersOf (handles ++ [x]) = ownersOf handles := by
  funext id
  unfold ownersOf
  rw [List.count_append, List.count_singleton, if_neg (by simpa using hx id)]
  rfl

/-- A new handle with an object is one more owner. -/
theorem ownersOf_concat_some :
    ownersOf (handles ++ [some (some id)]) =
      Function.update (ownersOf handles) id (ownersOf handles id + 1) := by
  funext id'
  unfold ownersOf
  rw [List.count_append, List.count_singleton, Function.update_apply]
  by_cases heq : id' = id
  · rw [heq, if_pos rfl, if_pos (by simp)]
  · rw [if_neg heq, if_neg (by simpa using Ne.symm heq)]
    rfl

/-- A handle that exists has a number below the next one. -/
theorem lt_length_of_getElem? (h : (handles)[this]? = some y) : this < handles.length :=
  (List.getElem?_eq_some_iff.mp h).1

/-- A handle counts as one of the owners. -/
theorem ownersOf_pos (h : (handles)[this]? = some (some (some id))) : 0 < ownersOf handles id :=
  List.count_pos_iff.mpr (List.mem_of_getElem? h)

/-- One handle changes its object: one owner less there, one more here. -/
theorem count_set_handle (h : (handles)[this]? = some y) (id : Nat) :
    ownersOf (handles.set this x) id =
      ownersOf handles id - (if y = some (some id) then 1 else 0) +
        if x = some (some id) then 1 else 0 := by
  obtain ⟨hlt, hy⟩ := List.getElem?_eq_some_iff.mp h
  unfold ownersOf
  rw [List.count_set hlt, hy]
  simp only [beq_iff_eq]

/-- No object before and after. -/
theorem ownersOf_set_free (h : (handles)[this]? = some y) (hy : Free y) (hx : Free x) :
    ownersOf (handles.set this x) = ownersOf handles := by
  funext id
  rw [count_set_handle h, if_neg (hy id), if_neg (hx id)]
  rfl

/-- The handle gives its object up. -/
theorem ownersOf_let_go (h : (handles)[this]? = some (some (some id))) (hx : Free x) :
    ownersOf (handles.set this x) =
      Function.update (ownersOf handles) id (ownersOf handles id - 1) := by
  funext id'
  rw [count_set_handle h, if_neg (hx id'), Function.update_apply]
  by_cases heq : id' = id
  · rw [heq, if_pos rfl, if_pos rfl]
    rfl
  · rw [if_neg heq, if_neg (by simpa using Ne.symm heq)]
    rfl

/-- The handle gets an object. -/
theorem ownersOf_take (h : (handles)[this]? = some y) (hy : Free y) :
    ownersOf (handles.set this (some (some id))) =
      Function.update (ownersOf handles) id (ownersOf handles id + 1) := by
  funext id'
  rw [count_set_handle h, if_neg (hy id'), Function.update_apply]
  by_cases heq : id' = id
  · rw [heq, if_pos rfl, if_pos rfl]
    rfl
  · rw [if_neg heq, if_neg (by simpa using Ne.symm heq)]
    rfl

end

/-! ### The invariant -/

section
variable [Libc] {s s' : Regexes} {this that : Nat}

/-- Each object that handles point to is there, and counts them. Each other one was deleted
once. -/
def Exact (s : Regexes) : Prop := Counted s.heap (ownersOf s.handles)

/-- The regex that a handle has. -/
def seen (s : Regexes) (this : Nat) : Option (Option CompiledRegex) :=
  (s.creg this).map fun creg => creg.bind s.heap.value

/-- What a handle sees depends on its own object only. -/
theorem seen_congr (hcreg : s'.creg that = s.creg that)
    (hvalue : ∀ id, s.creg that = some (some id) → s'.heap.value id = s.heap.value id) :
    seen s' that = seen s that := by
  unfold seen
  rw [hcreg]
  cases h : s.creg that with
  | none => rfl
  | some creg =>
    cases creg with
    | none => rfl
    | some id => exact congrArg some (hvalue id h)

/-- The member of a handle that exists. -/
theorem creg_eq_some {creg : Option Nat} (h : s.creg this = some creg) :
    (s.handles)[this]? = some (some creg) := by
  unfold Regexes.creg at h
  cases hget : (s.handles)[this]? with
  | none =>
    rw [hget] at h
    cases h
  | some handle =>
    rw [hget] at h
    exact congrArg some h

/-- The handle lets go of its object: the heap is that of a handle without one. -/
theorem drop_eq {creg : Option Nat} (hs : Exact s) (h : s.creg this = some creg) :
    ∃ heap, s.drop (fun refcount => refcount == 0) creg = some { s with heap } ∧
      (∀ x, Free x → Counted heap (ownersOf (s.handles.set this x))) ∧
      ∀ id, 0 < ownersOf (s.handles.set this none) id → heap.value id = s.heap.value id := by
  have hget := creg_eq_some h
  cases creg with
  | none =>
    refine ⟨s.heap, rfl, fun x hx => ?_, fun _ _ => rfl⟩
    rw [ownersOf_set_free hget free_null hx]
    exact hs
  | some id =>
    obtain ⟨heap, hrelease, hcounted, -, hvalue⟩ :=
      @Counted.release _ s.heap (ownersOf s.handles) id intMin hs (ownersOf_pos hget) (by decide)
    refine ⟨heap, ?_, fun x hx => ?_, fun id' hid' => ?_⟩
    · show (s.heap.release intMin _ id >>= fun heap => some { s with heap }) = _
      rw [hrelease]
      rfl
    · rw [ownersOf_let_go hget hx]
      exact hcounted
    -- An object that other handles point to survives.
    · refine hvalue id' ?_
      rw [ownersOf_let_go hget free_none, Function.update_apply] at hid'
      by_cases heq : id' = id
      · rw [if_pos heq] at hid'
        exact .inr (by omega)
      · exact .inl heq

/-- The object gets another handle, which was free before. -/
theorem acquire_eq {id : Nat} (hs : Exact s) (hpos : 0 < ownersOf s.handles id)
    (hmax : (ownersOf s.handles id : Int) < intMax) :
    ∃ heap, (∀ handles, Regexes.acquire ⟨handles, s.heap⟩ (some id) = some ⟨handles, heap⟩) ∧
      Counted heap (Function.update (ownersOf s.handles) id (ownersOf s.handles id + 1)) ∧
      ∀ id', heap.value id' = s.heap.value id' := by
  obtain ⟨heap, hincrement, hcounted, -, hvalue⟩ :=
    @Counted.increment _ s.heap _ id intMax hs hpos hmax
  refine ⟨heap, fun handles => ?_, hcounted, hvalue⟩
  show (s.heap.increment intMax id >>= fun heap => some (Regexes.mk handles heap)) = _
  rw [hincrement]
  rfl

/-- The object has as many handles as it can count. -/
theorem acquire_eq_none {handles : List (Option (Option Nat))} {id : Nat} (hs : Exact s)
    (hpos : 0 < ownersOf s.handles id) (hmax : ¬ (ownersOf s.handles id : Int) < intMax) :
    Regexes.acquire ⟨handles, s.heap⟩ (some id) = none := by
  show (s.heap.increment intMax id >>= fun heap => some (Regexes.mk handles heap)) = _
  rw [@Counted.increment_eq_none _ s.heap _ id intMax hs hpos hmax]
  rfl

/-! ### The operations -/

/-- The operation is one on live handles, and its pattern can be compiled. -/
def Valid (s : Regexes) : RegexOp → Prop
  | .construct => True
  | .fromPattern regex cflags basic =>
    ∃ preg, Libc.regcomp (cstr regex) (if basic then cflags else cflags ||| regExtended) = .ok preg
  | .copy that => ∃ creg, s.creg that = some creg
  | .assign this that => (∃ creg, s.creg this = some creg) ∧ ∃ creg, s.creg that = some creg
  | .compile this regex cflags basic => (∃ creg, s.creg this = some creg) ∧
    ∃ preg, Libc.regcomp (cstr regex) (if basic then cflags else cflags ||| regExtended) = .ok preg
  | .destroy this => ∃ creg, s.creg this = some creg

/-- The object of a handle can count one more. -/
def HasRoom (handles : List (Option (Option Nat))) (creg : Option (Option Nat)) : Prop :=
  ∀ id, creg = some (some id) → (ownersOf handles id : Int) < intMax

/-- A `compile` meets no handle with an object, and no object gets more handles than it can
count. -/
def Careful (s : Regexes) : RegexOp → Prop
  | .copy that => HasRoom s.handles (s.creg that)
  | .assign this that => this ≠ that → HasRoom (s.handles.set this none) (s.creg that)
  | .compile this .. => s.creg this = some none
  | _ => True

/-- A `compile` changes no other handle. -/
def Undisturbed (s s' : Regexes) : RegexOp → Prop
  | .compile this .. => ∀ that, that ≠ this → seen s' that = seen s that
  | _ => True

section
variable {creg : Option Nat} {regex : Bytes} {cflags : UInt32} {basic : Bool}

/-- A pattern that compiles. -/
theorem compile_of_ok {s₁ : Regexes} {preg : Libc.Preg} (h : s.creg this = some creg)
    (hdrop : s.drop (fun refcount => refcount != 0) creg = some s₁)
    (hpreg : Libc.regcomp (cstr regex) (if basic then cflags else cflags ||| regExtended) =
      .ok preg) :
    s.compile this regex cflags basic = some ({ s₁.point this (some s₁.heap.cells.length) with
      heap := s₁.heap.alloc ⟨if basic then cflags else cflags ||| regExtended, some preg⟩ },
      none) := by
  simp only [Regexes.compile, h, hdrop, hpreg, Option.bind_eq_bind, Option.bind_some,
    Option.pure_def]

/-- A pattern that does not compile, and its message. -/
theorem compile_of_error {s₁ : Regexes} {text : Bytes} (h : s.creg this = some creg)
    (hdrop : s.drop (fun refcount => refcount != 0) creg = some s₁)
    (herror : Libc.regcomp (cstr regex) (if basic then cflags else cflags ||| regExtended) =
      .error text) :
    s.compile this regex cflags basic = some ({ s₁.point this (some s₁.heap.cells.length) with
      heap := s₁.heap.alloc ⟨if basic then cflags else cflags ||| regExtended, none⟩ },
      some (.compilationError text)) := by
  simp only [Regexes.compile, h, hdrop, herror, Option.bind_eq_bind, Option.bind_some,
    Option.pure_def]

end

/-- A fresh object for a handle without one. -/
theorem compile_exact {regex : Bytes} {cflags : UInt32} {basic : Bool} {preg : Libc.Preg}
    (hs : Exact s) (h : s.creg this = some none)
    (hpreg : Libc.regcomp (cstr regex) (if basic then cflags else cflags ||| regExtended) =
      .ok preg) :
    ∃ s', s.compile this regex cflags basic = some (s', none) ∧ Exact s' ∧
      ∀ that, that ≠ this → seen s' that = seen s that := by
  have hget := creg_eq_some h
  refine ⟨_, compile_of_ok h rfl hpreg, ?_, ?_⟩
  -- The new object is one that no handle points to yet.
  · have hzero : ownersOf s.handles s.heap.cells.length = 0 := by
      by_contra hne
      exact absurd (hs.lt_length _ (Nat.pos_of_ne_zero hne)) (Nat.lt_irrefl _)
    show Counted _ (ownersOf (s.handles.set this _))
    rw [ownersOf_take hget free_null, hzero]
    exact hs.alloc _
  · intro that hne
    refine seen_congr ?_ fun id hid => ?_
    · unfold Regexes.creg
      show ((s.handles.set this _)[that]?).join = _
      rw [List.getElem?_set_ne (Ne.symm hne)]
    · exact value_alloc (hs.lt_length id (ownersOf_pos (creg_eq_some hid))) _

/-- A new handle has no object. -/
theorem construct_exact (hs : Exact s) :
    Exact { s with handles := s.handles ++ [some none] } := by
  show Counted s.heap (ownersOf (s.handles ++ [some none]))
  rw [ownersOf_concat free_null]
  exact hs

/-- The handle that is constructed. -/
theorem creg_concat_length :
    Regexes.creg { s with handles := s.handles ++ [some none] } s.handles.length = some none := by
  unfold Regexes.creg
  dsimp only
  rw [List.getElem?_concat_length]
  rfl

/-- The constructor with a pattern is a `compile` of a new handle. -/
theorem step_fromPattern {regex : Bytes} {cflags : UInt32} {basic : Bool}
    (h : Regexes.compile { s with handles := s.handles ++ [some none] } s.handles.length regex
      cflags basic = some (s', none)) :
    s.step (.fromPattern regex cflags basic) = some (s', none) := by
  show (Regexes.compile { s with handles := s.handles ++ [some none] } _ regex cflags basic >>=
    _) = _
  rw [h]
  rfl

/-- It keeps the counts exact. -/
theorem fromPattern_exact {regex : Bytes} {cflags : UInt32} {basic : Bool} (hs : Exact s)
    (hvalid : Valid s (.fromPattern regex cflags basic)) :
    ∃ s', s.step (.fromPattern regex cflags basic) = some (s', none) ∧ Exact s' := by
  obtain ⟨preg, hpreg⟩ := hvalid
  obtain ⟨s', hcompile, hs', -⟩ := compile_exact (construct_exact hs) creg_concat_length hpreg
  exact ⟨s', step_fromPattern hcompile, hs'⟩

/-- A copy gets the object of its original. -/
theorem step_copy {creg : Option Nat} (h : s.creg that = some creg) :
    s.step (.copy that) = s.acquire creg >>= fun s' =>
      some ({ s' with handles := s'.handles ++ [some creg] }, none) := by
  show (s.creg that >>= _) = _
  rw [h]
  rfl

/-- It keeps the counts exact, if the object can count one more handle. -/
theorem copy_exact (hs : Exact s) (hvalid : Valid s (.copy that)) :
    (∃ s', s.step (.copy that) = some (s', none) ∧ Exact s') ↔ Careful s (.copy that) := by
  obtain ⟨creg, hcreg⟩ := hvalid
  rw [step_copy hcreg]
  show _ ↔ HasRoom s.handles (s.creg that)
  rw [hcreg]
  cases creg with
  | none => exact ⟨fun _ _ h => (nomatch h), fun _ => ⟨_, rfl, construct_exact hs⟩⟩
  | some id =>
    have hpos := ownersOf_pos (creg_eq_some hcreg)
    constructor
    · rintro ⟨s', hstep, -⟩ id' hid'
      cases hid'
      by_contra hmax
      have hnone : s.acquire (some id) = none := acquire_eq_none hs hpos hmax
      rw [hnone] at hstep
      cases hstep
    · intro hcareful
      obtain ⟨heap, hacquire, hcounted, -⟩ := acquire_eq hs hpos (hcareful id rfl)
      refine ⟨⟨s.handles ++ [some (some id)], heap⟩, ?_, ?_⟩
      · rw [hacquire s.handles]
        rfl
      · show Counted heap (ownersOf (s.handles ++ [some (some id)]))
        rw [ownersOf_concat_some]
        exact hcounted

/-- The destructor gives the object up. -/
theorem step_destroy {creg : Option Nat} {heap : RefCount.Heap CompiledRegex}
    (h : s.creg this = some creg)
    (hdrop : s.drop (fun refcount => refcount == 0) creg = some { s with heap }) :
    s.step (.destroy this) = some (⟨s.handles.set this none, heap⟩, none) := by
  show (s.creg this >>= _) = _
  rw [h]
  show (s.drop _ creg >>= _) = _
  rw [hdrop]
  rfl

/-- It keeps the counts exact. -/
theorem destroy_exact (hs : Exact s) (hvalid : Valid s (.destroy this)) :
    ∃ s', s.step (.destroy this) = some (s', none) ∧ Exact s' := by
  obtain ⟨creg, hcreg⟩ := hvalid
  obtain ⟨heap, hdrop, hcounted, -⟩ := drop_eq hs hcreg
  exact ⟨⟨s.handles.set this none, heap⟩, step_destroy hcreg hdrop, hcounted none free_none⟩

/-- An assignment gives one object up, and gets another. -/
theorem step_assign {old creg : Option Nat} {heap : RefCount.Heap CompiledRegex} (hne : this ≠ that)
    (hold : s.creg this = some old) (hcreg : s.creg that = some creg)
    (hdrop : s.drop (fun refcount => refcount == 0) old = some { s with heap }) :
    s.step (.assign this that) =
      Regexes.acquire ⟨s.handles.set this (some creg), heap⟩ creg >>= fun s => some (s, none) := by
  show (s.creg this >>= _) = _
  rw [hold]
  show (s.creg that >>= _) = _
  rw [hcreg]
  show (if this ≠ that then s.drop _ old >>= _ else _) = _
  rw [if_pos hne, hdrop]
  rfl

/-- A self-assignment does nothing. -/
theorem step_assign_self {old : Option Nat} (hold : s.creg this = some old) :
    s.step (.assign this this) = some (s, none) := by
  show (s.creg this >>= _) = _
  rw [hold]
  show (if this ≠ this then _ else _) = _
  rw [if_neg (not_not.mpr rfl)]
  rfl

/-- It keeps the counts exact, if it is careful. -/
theorem assign_exact (hs : Exact s) (hvalid : Valid s (.assign this that)) :
    (∃ s', s.step (.assign this that) = some (s', none) ∧ Exact s') ↔
      Careful s (.assign this that) := by
  obtain ⟨⟨old, hold⟩, creg, hcreg⟩ := hvalid
  by_cases hself : this = that
  -- Self-assignment does nothing.
  · subst hself
    exact ⟨fun _ hne => absurd rfl hne, fun _ => ⟨s, step_assign_self hold, hs⟩⟩
  · obtain ⟨heap, hdrop, hcounted, -⟩ := drop_eq hs hold
    rw [step_assign hself hold hcreg hdrop]
    show _ ↔ (this ≠ that → HasRoom (s.handles.set this none) (s.creg that))
    rw [hcreg]
    cases creg with
    | none => exact ⟨fun _ _ _ h => (nomatch h), fun _ => ⟨_, rfl, hcounted _ free_null⟩⟩
    | some id =>
      -- The handle that is copied keeps the object alive while the other lets go of its own.
      have hthat : ((s.handles.set this none))[that]? = some (some (some id)) := by
        rw [List.getElem?_set_ne hself]
        exact creg_eq_some hcreg
      have hthis : ((s.handles.set this none))[this]? = some none :=
        List.getElem?_set_self (lt_length_of_getElem? (creg_eq_some hold))
      -- The handle between its two objects.
      have hbetween : Exact ⟨s.handles.set this none, heap⟩ := hcounted none free_none
      constructor
      · rintro ⟨s', hstep, -⟩ - id' hid'
        cases hid'
        by_contra hmax
        have hnone : Regexes.acquire ⟨s.handles.set this (some (some id)), heap⟩ (some id) = none :=
          acquire_eq_none hbetween (ownersOf_pos hthat) hmax
        rw [hnone] at hstep
        cases hstep
      · intro hcareful
        obtain ⟨heap', hacquire, hcounted', -⟩ :=
          acquire_eq hbetween (ownersOf_pos hthat) (hcareful hself id rfl)
        refine ⟨⟨s.handles.set this (some (some id)), heap'⟩, ?_, ?_⟩
        · rw [hacquire]
          rfl
        · show Counted heap' (ownersOf (s.handles.set this (some (some id))))
          have htake := @ownersOf_take (s.handles.set this none) this id none hthis free_none
          rw [List.set_set] at htake
          rw [htake]
          exact hcounted'

/-- The test in `compile` is the wrong one. -/
theorem compile_not_exact {id : Nat} {regex : Bytes} {cflags : UInt32} {basic : Bool}
    {e : Option Exn} (hs : Exact s) (h : s.creg this = some (some id))
    (hstep : s.compile this regex cflags basic = some (s', e)) : ¬ Exact s' := by
  have hget := creg_eq_some h
  have hpos := ownersOf_pos hget
  have hid := hs.lt_length id hpos
  obtain ⟨heap, hrelease, hlen, hwrong⟩ :=
    @Counted.not_counted_of_release _ s.heap (ownersOf s.handles) id intMin hs hpos (by decide)
  have hdrop : s.drop (fun refcount => refcount != 0) (some id) = some { s with heap } := by
    show (s.heap.release intMin _ id >>= fun heap => some { s with heap }) = _
    rw [hrelease]
    rfl
  -- Whatever the new object is, the old one is as `release` left it.
  have hdeleted : s'.heap.deleted = heap.deleted ∧ id < s'.heap.cells.length ∧
      s'.handles = s.handles.set this (some (some heap.cells.length)) := by
    have halloc : ∀ value, id < (heap.alloc value).cells.length := by
      intro value
      show id < (heap.cells ++ [_]).length
      rw [List.length_append, hlen]
      omega
    cases hregcomp : Libc.regcomp (cstr regex)
        (if basic then cflags else cflags ||| regExtended) with
    | error text =>
      rw [compile_of_error h hdrop hregcomp] at hstep
      cases hstep
      exact ⟨rfl, halloc _, rfl⟩
    | ok preg =>
      rw [compile_of_ok h hdrop hregcomp] at hstep
      cases hstep
      exact ⟨rfl, halloc _, rfl⟩
  obtain ⟨hdeleted, hlt, hhandles⟩ := hdeleted
  have howners : ownersOf s'.handles id = ownersOf s.handles id - 1 := by
    have hne : heap.cells.length ≠ id := by omega
    rw [hhandles, count_set_handle hget, if_pos rfl, if_neg (by simpa using hne)]
    rfl
  intro hs'
  obtain ⟨hshared, hmem⟩ | ⟨hsole, hcount⟩ := hwrong
  -- The object has other handles, but it was deleted.
  · have hkept := hs'.kept id (by omega)
    rw [hdeleted] at hkept
    exact hkept hmem
  -- The object lost its only handle, but it was not deleted.
  · have hgone := hs'.deleted id hlt (by omega)
    rw [hdeleted, hcount] at hgone
    cases hgone

/-! ### Runs -/

/-- One operation that is valid. -/
def HandleStep (s : Regexes) (op : RegexOp) (s' : Regexes) : Prop :=
  Valid s op ∧ s.step op = some (s', none)

/-- What an operation should do. -/
def Correct (s : Regexes) (op : RegexOp) : Prop :=
  ∃ s', s.step op = some (s', none) ∧ Exact s' ∧ Undisturbed s s' op

/-- **One operation** is right exactly if it is careful. -/
theorem correct_iff {op : RegexOp} (hs : Exact s) (hvalid : Valid s op) :
    Correct s op ↔ Careful s op := by
  cases op with
  | construct => exact ⟨fun _ => trivial, fun _ => ⟨_, rfl, construct_exact hs, trivial⟩⟩
  | fromPattern regex cflags basic =>
    obtain ⟨s', hstep, hs'⟩ := fromPattern_exact hs hvalid
    exact ⟨fun _ => trivial, fun _ => ⟨s', hstep, hs', trivial⟩⟩
  | copy that =>
    rw [← copy_exact hs hvalid]
    exact ⟨fun ⟨s', hstep, hs', _⟩ => ⟨s', hstep, hs'⟩,
      fun ⟨s', hstep, hs'⟩ => ⟨s', hstep, hs', trivial⟩⟩
  | assign this that =>
    rw [← assign_exact hs hvalid]
    exact ⟨fun ⟨s', hstep, hs', _⟩ => ⟨s', hstep, hs'⟩,
      fun ⟨s', hstep, hs'⟩ => ⟨s', hstep, hs', trivial⟩⟩
  | compile this regex cflags basic =>
    obtain ⟨⟨creg, hcreg⟩, preg, hpreg⟩ := hvalid
    constructor
    · rintro ⟨s', hstep, hs', -⟩
      cases creg with
      | none => exact hcreg
      | some id => exact absurd hs' (compile_not_exact hs hcreg hstep)
    · intro hcareful
      exact compile_exact hs hcareful hpreg
  | destroy this =>
    obtain ⟨s', hstep, hs'⟩ := destroy_exact hs hvalid
    exact ⟨fun _ => trivial, fun _ => ⟨s', hstep, hs', trivial⟩⟩

/-- The run lemma. -/
theorem exact_of_reachable (h : Reachable (· = start) (Guarded HandleStep Careful) s) :
    Exact s := by
  refine h.invariant ?_ ?_
  · rintro s rfl
    exact counted_empty
  · rintro s op s' hs ⟨hcareful, hvalid, hstep⟩
    obtain ⟨s'', hstep'', hs', -⟩ := (correct_iff hs hvalid).mpr hcareful
    rw [hstep] at hstep''
    cases hstep''
    exact hs'

/-- The counts are exact in all runs in which no `compile` meets a handle with an object, and such
a `compile` makes them wrong. -/
theorem refcounts_exact :
    (∀ s, Reachable (· = start) (Guarded HandleStep Careful) s → Exact s) ∧
    ∀ s op, Reachable (· = start) (Guarded HandleStep Careful) s → Valid s op →
      (Correct s op ↔ Careful s op) :=
  ⟨fun _ h => exact_of_reachable h, fun _ _ h => correct_iff (exact_of_reachable h)⟩

end

/-- A copy is compiled again: the object is deleted, and the other handle points to it. -/
theorem not_refcounts_exact :
    letI := Libc.noMatch
    ∃ s, Reachable (· = start) HandleStep s ∧ s.creg 0 = some (some 0) ∧ s.heap.get 0 = none ∧
      ¬ Exact s := by
  let _ := Libc.noMatch
  refine ⟨_, .next (.compile 1 [] 0 false) (.next (.copy 0) (.next (.fromPattern [] 0 false)
    (.start rfl) ⟨⟨_, rfl⟩, rfl⟩) ⟨⟨_, rfl⟩, rfl⟩) ⟨⟨⟨_, rfl⟩, _, rfl⟩, rfl⟩, rfl, rfl, ?_⟩
  intro hs
  exact hs.kept 0 (by decide) (by decide)

end Blockad.Proofs
