import Blockad.Proofs.RegexHandles

/-!
# `Blockad.Proofs.RegexValues`: a handle is a value

`Blockad.Model.Regex` has a `Regex` as a value, and a copy of it is just another one. The sources
share compiled objects between handles instead. `values` forgets the sharing, and `valueStep` is
what each operation means without it.

* `values_step`: an operation does that, if it is `Careful`.
* `values_of_reachable`: a run of the handles is a run of the values.
-/

set_option autoImplicit false

namespace Blockad.Proofs

open Bytes RefCount Regexes Runs

variable [Libc]

/-! ### Values -/

/-- The `Regex` of an object. There is none if its pattern was not compiled. -/
def regexOf (compiled : CompiledRegex) : Option Regex :=
  compiled.reg.map fun preg => ⟨preg, compiled.cflags⟩

/-- The value of a handle: it was destroyed, has no pattern, or is a `Regex`. -/
def valueOf (heap : RefCount.Heap CompiledRegex) (handle : Option (Option Nat)) :
    Option (Option Regex) :=
  handle.map fun creg => creg.bind fun id => (heap.value id).bind regexOf

/-- The values of the handles. -/
def values (s : Regexes) : List (Option (Option Regex)) := s.handles.map (valueOf s.heap)

/-- One operation on values. -/
def valueStep (vs : List (Option (Option Regex))) : RegexOp → Option (List (Option (Option Regex)))
  | .construct => some (vs ++ [some none])
  | .fromPattern regex cflags basic => do
    let r ← (Regex.compile regex cflags basic).toOption
    return vs ++ [some (some r)]
  | .copy that => do
    let value ← vs[that]?.join
    return vs ++ [some value]
  | .assign this that => do
    let value ← vs[that]?.join
    return vs.set this (some value)
  | .compile this regex cflags basic => do
    let r ← (Regex.compile regex cflags basic).toOption
    return vs.set this (some (some r))
  | .destroy this => some (vs.set this none)

section
variable {s s' : Regexes} {this that : Nat} {creg : Option Nat}
  {handles : List (Option (Option Nat))} {heap heap' : RefCount.Heap CompiledRegex}

/-- The values are in the objects that handles point to. -/
theorem map_valueOf_congr (h : ∀ id, 0 < ownersOf handles id → heap'.value id = heap.value id) :
    handles.map (valueOf heap') = handles.map (valueOf heap) := by
  refine List.map_congr_left fun handle hhandle => ?_
  cases handle with
  | none => rfl
  | some creg =>
    cases creg with
    | none => rfl
    | some id =>
      have hpos : 0 < ownersOf handles id := List.count_pos_iff.mpr hhandle
      show some ((heap'.value id).bind regexOf) = some ((heap.value id).bind regexOf)
      rw [h id hpos]

/-- The value of a handle that exists. -/
theorem getElem?_values (h : s.creg that = some creg) :
    (values s)[that]? = some (valueOf s.heap (some creg)) := by
  unfold values
  rw [List.getElem?_map, creg_eq_some h]
  rfl

/-- A pattern that compiles. -/
theorem compile_eq_ok {regex : Bytes} {cflags : UInt32} {basic : Bool} {preg : Libc.Preg}
    (h : Libc.regcomp (cstr regex) (if basic then cflags else cflags ||| regExtended) = .ok preg) :
    Regex.compile regex cflags basic =
      .ok ⟨preg, if basic then cflags else cflags ||| regExtended⟩ := by
  unfold Regex.compile
  dsimp only
  rw [h]

/-- A fresh object for a handle without one. -/
theorem values_compile {regex : Bytes} {cflags : UInt32} {basic : Bool} {preg : Libc.Preg}
    (hs : Exact s) (h : s.creg this = some none)
    (hpreg : Libc.regcomp (cstr regex) (if basic then cflags else cflags ||| regExtended) =
      .ok preg) :
    ∃ s', s.compile this regex cflags basic = some (s', none) ∧
      values s' = (values s).set this
        (some (some ⟨preg, if basic then cflags else cflags ||| regExtended⟩)) := by
  refine ⟨_, compile_of_ok h rfl hpreg, ?_⟩
  let flags := if basic then cflags else cflags ||| regExtended
  have hold : s.handles.map (valueOf (s.heap.alloc ⟨flags, some preg⟩)) = values s :=
    map_valueOf_congr fun id hid => value_alloc (hs.lt_length id hid) _
  have hnew : valueOf (s.heap.alloc ⟨flags, some preg⟩) (some (some s.heap.cells.length)) =
      some (some ⟨preg, flags⟩) := by
    show some ((Heap.value (s.heap.alloc ⟨flags, some preg⟩) _).bind regexOf) = _
    rw [hs.value_alloc_self]
    rfl
  show (s.handles.set this _).map (valueOf (s.heap.alloc ⟨flags, some preg⟩)) = _
  rw [List.map_set, hold, hnew]

/-- A new handle has a value of its own. -/
theorem values_concat (s : Regexes) (handle : Option (Option Nat)) :
    values { s with handles := s.handles ++ [handle] } = values s ++ [valueOf s.heap handle] := by
  show (s.handles ++ [handle]).map (valueOf s.heap) = _
  rw [List.map_append]
  rfl

/-- **The constructor** adds the compiled pattern. -/
theorem values_fromPattern {regex : Bytes} {cflags : UInt32} {basic : Bool} {preg : Libc.Preg}
    (hs : Exact s)
    (hpreg : Libc.regcomp (cstr regex) (if basic then cflags else cflags ||| regExtended) =
      .ok preg) :
    ∃ s', s.step (.fromPattern regex cflags basic) = some (s', none) ∧
      values s' = values s ++
        [some (some ⟨preg, if basic then cflags else cflags ||| regExtended⟩)] := by
  obtain ⟨s', hcompile, hvalues⟩ :=
    values_compile (construct_exact hs) creg_concat_length hpreg
  refine ⟨s', step_fromPattern hcompile, ?_⟩
  have hlen : (values s).length = s.handles.length := List.length_map _
  rw [hvalues, values_concat, ← hlen, List.set_append_right _ _ (Nat.le_refl _), Nat.sub_self]
  rfl

/-- **A copy** adds the value of its original. -/
theorem values_copy (hs : Exact s) (hcreg : s.creg that = some creg)
    (hroom : HasRoom s.handles (s.creg that)) :
    ∃ s', s.step (.copy that) = some (s', none) ∧
      values s' = values s ++ [valueOf s.heap (some creg)] := by
  rw [step_copy hcreg]
  cases creg with
  | none => exact ⟨_, rfl, values_concat s _⟩
  | some id =>
    obtain ⟨heap, hacquire, -, hvalue⟩ :=
      acquire_eq hs (ownersOf_pos (creg_eq_some hcreg)) (hroom id hcreg)
    refine ⟨⟨s.handles ++ [some (some id)], heap⟩, ?_, ?_⟩
    · rw [hacquire s.handles]
      rfl
    · rw [← values_concat]
      exact map_valueOf_congr fun id' _ => hvalue id'

/-- The objects that handles point to after the assignment had handles before it, apart from the
one that is assigned to. -/
theorem ownersOf_pos_of_assign {old : Option Nat} {id : Nat} (hne : this ≠ that)
    (hold : s.creg this = some old) (hcreg : s.creg that = some creg)
    (hid : 0 < ownersOf (s.handles.set this (some creg)) id) :
    0 < ownersOf (s.handles.set this none) id := by
  by_cases hsame : creg = some id
  · have hthat : (s.handles.set this none)[that]? = some (some (some id)) := by
      rw [List.getElem?_set_ne hne, creg_eq_some hcreg, hsame]
    exact ownersOf_pos hthat
  · have hget := creg_eq_some hold
    have hother : ¬ some creg = some (some id) := by simpa using hsame
    rw [count_set_handle hget, if_neg hother] at hid
    rw [count_set_handle hget, if_neg (free_none id)]
    exact hid

/-- **An assignment** gives one handle the value of another. -/
theorem values_assign (hs : Exact s) (hne : this ≠ that) {old : Option Nat}
    (hold : s.creg this = some old) (hcreg : s.creg that = some creg)
    (hroom : HasRoom (s.handles.set this none) (s.creg that)) :
    ∃ s', s.step (.assign this that) = some (s', none) ∧
      values s' = (values s).set this (valueOf s.heap (some creg)) := by
  obtain ⟨heap, hdrop, hcounted, hkept⟩ := drop_eq hs hold
  rw [step_assign hne hold hcreg hdrop]
  have hset : (values s).set this (valueOf s.heap (some creg)) =
      (s.handles.set this (some creg)).map (valueOf s.heap) := List.map_set.symm
  have hdropped : (s.handles.set this (some creg)).map (valueOf heap) =
      (s.handles.set this (some creg)).map (valueOf s.heap) :=
    map_valueOf_congr fun id hid => hkept id (ownersOf_pos_of_assign hne hold hcreg hid)
  rw [hset, ← hdropped]
  cases creg with
  | none => exact ⟨_, rfl, rfl⟩
  | some id =>
    have hthat : (s.handles.set this none)[that]? = some (some (some id)) := by
      rw [List.getElem?_set_ne hne, creg_eq_some hcreg]
    -- The handle between its two objects.
    have hbetween : Exact ⟨s.handles.set this none, heap⟩ := hcounted none free_none
    obtain ⟨heap', hacquire, -, hvalue⟩ :=
      acquire_eq hbetween (ownersOf_pos hthat) (hroom id hcreg)
    refine ⟨⟨s.handles.set this (some (some id)), heap'⟩, ?_, ?_⟩
    · rw [hacquire]
      rfl
    · exact map_valueOf_congr fun id' _ => hvalue id'

/-- **One operation** is the one on values. -/
theorem values_step {op : RegexOp} (hs : Exact s) (hcareful : Careful s op)
    (h : HandleStep s op s') : valueStep (values s) op = some (values s') := by
  obtain ⟨hvalid, hstep⟩ := h
  cases op with
  | construct =>
    cases hstep
    rw [values_concat]
    rfl
  | fromPattern regex cflags basic =>
    obtain ⟨preg, hpreg⟩ := hvalid
    obtain ⟨s₁, hrun, hvalues⟩ := values_fromPattern hs hpreg
    cases hrun.symm.trans hstep
    rw [hvalues]
    show ((Regex.compile regex cflags basic).toOption >>= _) = _
    rw [compile_eq_ok hpreg]
    rfl
  | copy that =>
    obtain ⟨creg, hcreg⟩ := hvalid
    obtain ⟨s₁, hrun, hvalues⟩ := values_copy hs hcreg hcareful
    cases hrun.symm.trans hstep
    rw [hvalues]
    show ((values s)[that]?.join >>= _) = _
    rw [getElem?_values hcreg]
    rfl
  | assign this that =>
    obtain ⟨⟨old, hold⟩, creg, hcreg⟩ := hvalid
    show ((values s)[that]?.join >>= _) = _
    rw [getElem?_values hcreg]
    by_cases hself : this = that
    · -- The value is the one that is there.
      subst hself
      cases (step_assign_self hold).symm.trans hstep
      obtain ⟨hlt, hvalue⟩ := List.getElem?_eq_some_iff.mp (getElem?_values hcreg)
      show some ((values s).set this (valueOf s.heap (some creg))) = _
      rw [← hvalue, List.set_getElem_self]
    · obtain ⟨s₁, hrun, hvalues⟩ := values_assign hs hself hold hcreg (hcareful hself)
      cases hrun.symm.trans hstep
      rw [hvalues]
      rfl
  | compile this regex cflags basic =>
    obtain ⟨-, preg, hpreg⟩ := hvalid
    obtain ⟨s₁, hrun, hvalues⟩ := values_compile hs hcareful hpreg
    have hsame : s.compile this regex cflags basic = some (s', none) := hstep
    cases hrun.symm.trans hsame
    rw [hvalues]
    show ((Regex.compile regex cflags basic).toOption >>= _) = _
    rw [compile_eq_ok hpreg]
    rfl
  | destroy this =>
    obtain ⟨creg, hcreg⟩ := hvalid
    obtain ⟨heap, hdrop, -, hvalue⟩ := drop_eq hs hcreg
    cases (step_destroy hcreg hdrop).symm.trans hstep
    show some ((values s).set this none) = some ((s.handles.set this none).map (valueOf heap))
    rw [map_valueOf_congr hvalue, List.map_set]
    rfl

/-- The steps of the values. -/
def ValueStep (vs : List (Option (Option Regex))) (op : RegexOp)
    (vs' : List (Option (Option Regex))) : Prop := valueStep vs op = some vs'

/-- **A run of the handles is a run of the values.** -/
theorem values_of_reachable (h : Reachable (· = start) (Guarded HandleStep Careful) s) :
    Reachable (· = []) ValueStep (values s) := by
  induction h with
  | start h =>
    rw [h]
    exact .start rfl
  | next op hreach hstep ih =>
    have hs := exact_of_reachable hreach
    exact .next op ih (values_step hs hstep.1 hstep.2)

end

end Blockad.Proofs
