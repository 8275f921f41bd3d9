import Mathlib.Data.List.Basic
import Mathlib.Logic.Function.Basic

/-!
# `Blockad.Lib.RefCount`: cells with reference counts

A heap of cells that count their owners. An operation on a cell that was deleted is undefined, and
so is a count that leaves its range. `Counted` relates the heap to the numbers of owners that its
cells should have: a cell with owners is there and has their number, and a cell without one was
deleted once. `release` is given the test that makes it delete the cell; the rules are about the
test for zero.

Nothing here is about one program.
-/

set_option autoImplicit false

namespace RefCount

variable {α : Type}

/-- A cell. -/
structure Cell (α : Type) where
  refcount : Int
  value : α

/-- The cells that were made, and those that were deleted. -/
structure Heap (α : Type) where
  cells : List (Cell α)
  deleted : List Nat

namespace Heap

variable (h : Heap α)

/-- The heap at the start. -/
def empty : Heap α := ⟨[], []⟩

/-- A cell that is not deleted. -/
def get (id : Nat) : Option (Cell α) := if id ∈ h.deleted then none else h.cells[id]?

/-- A new count. -/
def setCount (id : Nat) (cell : Cell α) (n : Int) : Heap α :=
  { h with cells := h.cells.set id { cell with refcount := n } }

/-- A new cell with one owner. -/
def alloc (value : α) : Heap α := { h with cells := h.cells ++ [⟨1, value⟩] }

/-- `delete`. -/
def delete (id : Nat) : Heap α := { h with deleted := h.deleted ++ [id] }

/-- One more owner. -/
def increment (max : Int) (id : Nat) : Option (Heap α) := do
  let cell ← h.get id
  if cell.refcount < max then some (h.setCount id cell (cell.refcount + 1)) else none

/-- One owner less, and a `delete` if the new count passes the test. -/
def release (min : Int) (test : Int → Bool) (id : Nat) : Option (Heap α) := do
  let cell ← h.get id
  if min < cell.refcount then
    let h := h.setCount id cell (cell.refcount - 1)
    some (if test (cell.refcount - 1) then h.delete id else h)
  else none

end Heap

/-! ### Owners -/

/-- The cells have `owners`. -/
structure Counted (h : Heap α) (owners : Nat → Nat) : Prop where
  lt_length : ∀ id, 0 < owners id → id < h.cells.length
  kept : ∀ id, 0 < owners id → id ∉ h.deleted
  count : ∀ id cell, 0 < owners id → h.cells[id]? = some cell → cell.refcount = owners id
  deleted : ∀ id, id < h.cells.length → owners id = 0 → h.deleted.count id = 1
  deleted_lt : ∀ id ∈ h.deleted, id < h.cells.length

variable {h : Heap α} {owners : Nat → Nat} {id : Nat}

/-- The empty heap has no owners. -/
theorem counted_empty : Counted (Heap.empty : Heap α) fun _ => 0 :=
  ⟨fun _ h => absurd h (Nat.lt_irrefl 0), fun _ h => absurd h (Nat.lt_irrefl 0),
    fun _ _ h => absurd h (Nat.lt_irrefl 0), fun _ h => absurd h (Nat.not_lt_zero _),
    fun _ h => absurd h List.not_mem_nil⟩

/-- A cell with an owner can be used. -/
theorem Counted.get_eq (hc : Counted h owners) (hid : 0 < owners id) :
    ∃ cell, h.get id = some cell ∧ h.cells[id]? = some cell ∧ cell.refcount = owners id := by
  have hlt := hc.lt_length id hid
  have hcell := List.getElem?_eq_getElem hlt
  refine ⟨h.cells[id], ?_, hcell, hc.count id _ hid hcell⟩
  unfold Heap.get
  rw [if_neg (hc.kept id hid), hcell]

/-- The heap with another count for one cell. -/
theorem getElem?_setCount {cell : Cell α} {n : Int} {id' : Nat} :
    (h.setCount id cell n).cells[id']? =
      if id' = id ∧ id < h.cells.length then some { cell with refcount := n }
      else h.cells[id']? := by
  unfold Heap.setCount
  dsimp only
  rw [List.getElem?_set]
  by_cases heq : id = id'
  · subst heq
    by_cases hlt : id < h.cells.length
    · simp [hlt]
    · simp [hlt]
  · rw [if_neg heq, if_neg fun hand => heq hand.1.symm]

/-- A cell gets another number of owners. -/
theorem Counted.setCount {cell : Cell α} {n : Nat} (hc : Counted h owners) (hid : 0 < owners id)
    (hn : 0 < n) : Counted (h.setCount id cell n) (Function.update owners id n) := by
  have hlen : (h.setCount id cell (n : Int)).cells.length = h.cells.length := List.length_set
  have hlt := hc.lt_length id hid
  refine ⟨fun id' h' => ?_, fun id' h' => ?_, fun id' cell' h' hcell => ?_, fun id' h' h₀ => ?_,
    fun id' h' => ?_⟩
  · rw [hlen]
    by_cases heq : id' = id
    · rw [heq]
      exact hlt
    · rw [Function.update_of_ne heq] at h'
      exact hc.lt_length id' h'
  · by_cases heq : id' = id
    · rw [heq]
      exact hc.kept id hid
    · rw [Function.update_of_ne heq] at h'
      exact hc.kept id' h'
  · rw [getElem?_setCount] at hcell
    by_cases heq : id' = id
    · rw [if_pos ⟨heq, hlt⟩] at hcell
      cases hcell
      rw [heq, Function.update_self]
    · rw [if_neg fun hand => heq hand.1] at hcell
      rw [Function.update_of_ne heq] at h' ⊢
      exact hc.count id' cell' h' hcell
  · rw [hlen] at h'
    by_cases heq : id' = id
    · rw [heq, Function.update_self] at h₀
      omega
    · rw [Function.update_of_ne heq] at h₀
      exact hc.deleted id' h' h₀
  · rw [hlen]
    exact hc.deleted_lt id' h'

/-- A cell without an owner is deleted. -/
theorem Counted.delete {cell : Cell α} (hc : Counted h owners) (hid : 0 < owners id) :
    Counted ((h.setCount id cell 0).delete id) (Function.update owners id 0) := by
  have hlen : ((h.setCount id cell 0).delete id).cells.length = h.cells.length := List.length_set
  have hdeleted : ((h.setCount id cell 0).delete id).deleted = h.deleted ++ [id] := rfl
  refine ⟨fun id' h' => ?_, fun id' h' => ?_, fun id' cell' h' hcell => ?_, fun id' h' h₀ => ?_,
    fun id' h' => ?_⟩
  · rw [hlen]
    by_cases heq : id' = id
    · rw [heq, Function.update_self] at h'
      omega
    · rw [Function.update_of_ne heq] at h'
      exact hc.lt_length id' h'
  · by_cases heq : id' = id
    · rw [heq, Function.update_self] at h'
      omega
    · rw [Function.update_of_ne heq] at h'
      rw [hdeleted, List.mem_append, List.mem_singleton, not_or]
      exact ⟨hc.kept id' h', heq⟩
  · by_cases heq : id' = id
    · rw [heq, Function.update_self] at h'
      omega
    · rw [Function.update_of_ne heq] at h' ⊢
      have hsame : ((h.setCount id cell 0).delete id).cells[id']? = h.cells[id']? := by
        show (h.setCount id cell 0).cells[id']? = _
        rw [getElem?_setCount, if_neg fun hand => heq hand.1]
      rw [hsame] at hcell
      exact hc.count id' cell' h' hcell
  · rw [hlen] at h'
    rw [hdeleted, List.count_append]
    by_cases heq : id' = id
    · rw [heq, List.count_singleton_self, List.count_eq_zero_of_not_mem (hc.kept id hid)]
    · rw [Function.update_of_ne heq] at h₀
      rw [hc.deleted id' h' h₀, List.count_singleton, if_neg (by simpa using Ne.symm heq)]
  · rw [hlen]
    rw [hdeleted, List.mem_append, List.mem_singleton] at h'
    obtain h' | h' := h'
    · exact hc.deleted_lt id' h'
    · rw [h']
      exact hc.lt_length id hid

/-- A new cell has one owner. -/
theorem Counted.alloc (hc : Counted h owners) (value : α) :
    Counted (h.alloc value) (Function.update owners h.cells.length 1) := by
  have hlen : (h.alloc value).cells.length = h.cells.length + 1 := by
    show (h.cells ++ [_]).length = _
    rw [List.length_append, List.length_singleton]
  refine ⟨fun id' h' => ?_, fun id' h' => ?_, fun id' cell' h' hcell => ?_, fun id' h' h₀ => ?_,
    fun id' h' => ?_⟩
  · rw [hlen]
    by_cases heq : id' = h.cells.length
    · omega
    · rw [Function.update_of_ne heq] at h'
      have := hc.lt_length id' h'
      omega
  · intro hmem
    have hlt : id' < h.cells.length := hc.deleted_lt id' hmem
    rw [Function.update_of_ne (by omega)] at h'
    exact hc.kept id' h' hmem
  · by_cases heq : id' = h.cells.length
    · subst heq
      have hnew : (h.alloc value).cells[h.cells.length]? = some ⟨1, value⟩ :=
        List.getElem?_concat_length
      rw [hnew] at hcell
      cases hcell
      rw [Function.update_self]
      rfl
    · rw [Function.update_of_ne heq] at h' ⊢
      have hold : (h.alloc value).cells[id']? = h.cells[id']? :=
        List.getElem?_append_left (hc.lt_length id' h')
      rw [hold] at hcell
      exact hc.count id' cell' h' hcell
  · by_cases heq : id' = h.cells.length
    · rw [heq, Function.update_self] at h₀
      omega
    · rw [Function.update_of_ne heq] at h₀
      exact hc.deleted id' (by omega) h₀
  · have := hc.deleted_lt id' h'
    omega

/-! ### Values -/

/-- The value of a cell that is not deleted. -/
def Heap.value (h : Heap α) (id : Nat) : Option α := (h.get id).map Cell.value

/-- A count is no part of the values. -/
theorem value_setCount {cell : Cell α} {n : Int} (hcell : h.cells[id]? = some cell) (id' : Nat) :
    (h.setCount id cell n).value id' = h.value id' := by
  have hdeleted : (h.setCount id cell n).deleted = h.deleted := rfl
  unfold Heap.value Heap.get
  rw [hdeleted]
  split
  · rfl
  · rw [getElem?_setCount]
    split
    · rename_i hand
      rw [hand.1, hcell]
      rfl
    · rfl

/-- A deletion leaves the other values alone. -/
theorem value_delete {id' : Nat} (hne : id' ≠ id) : (h.delete id).value id' = h.value id' := by
  unfold Heap.value Heap.get Heap.delete
  dsimp only
  by_cases hmem : id' ∈ h.deleted
  · rw [if_pos (List.mem_append_left _ hmem), if_pos hmem]
  · rw [if_neg hmem, if_neg]
    rw [List.mem_append, List.mem_singleton, not_or]
    exact ⟨hmem, hne⟩

/-- So does an allocation. -/
theorem value_alloc {id' : Nat} (hlt : id' < h.cells.length) (value : α) :
    (h.alloc value).value id' = h.value id' := by
  have hcells : (h.alloc value).cells[id']? = h.cells[id']? := List.getElem?_append_left hlt
  unfold Heap.value Heap.get
  rw [hcells]
  rfl

/-- The value of a new cell. -/
theorem Counted.value_alloc_self (hc : Counted h owners) (value : α) :
    (h.alloc value).value h.cells.length = some value := by
  have hnew : (h.alloc value).cells[h.cells.length]? = some ⟨1, value⟩ :=
    List.getElem?_concat_length
  have hkept : h.cells.length ∉ (h.alloc value).deleted := fun hmem =>
    absurd (hc.deleted_lt _ hmem) (Nat.lt_irrefl _)
  unfold Heap.value Heap.get
  rw [if_neg hkept, hnew]
  rfl

/-! ### The operations -/

/-- One more owner of an object that has one. The count does not overflow below `max`. -/
theorem Counted.increment {max : Int} (hc : Counted h owners) (hid : 0 < owners id)
    (hmax : owners id < max) :
    ∃ h', h.increment max id = some h' ∧ Counted h' (Function.update owners id (owners id + 1)) ∧
      h'.cells.length = h.cells.length ∧ ∀ id', h'.value id' = h.value id' := by
  obtain ⟨cell, hget, hcell, hcount⟩ := hc.get_eq hid
  refine ⟨h.setCount id cell (owners id + 1 : Nat), ?_, hc.setCount hid (Nat.succ_pos _),
    List.length_set, value_setCount hcell⟩
  unfold Heap.increment
  rw [hget]
  show (if cell.refcount < max then _ else none) = _
  rw [hcount, if_pos hmax]
  rfl

/-- A count that cannot grow. -/
theorem Counted.increment_eq_none {max : Int} (hc : Counted h owners) (hid : 0 < owners id)
    (hmax : ¬ owners id < max) : h.increment max id = none := by
  obtain ⟨cell, hget, -, hcount⟩ := hc.get_eq hid
  unfold Heap.increment
  rw [hget]
  show (if cell.refcount < max then _ else none) = _
  rw [hcount, if_neg hmax]

/-- A cell loses an owner, and is deleted with the last one. -/
theorem Counted.release {min : Int} (hc : Counted h owners) (hid : 0 < owners id) (hmin : min ≤ 0) :
    ∃ h', h.release min (fun n => n == 0) id = some h' ∧
      Counted h' (Function.update owners id (owners id - 1)) ∧
      h'.cells.length = h.cells.length ∧
      ∀ id', id' ≠ id ∨ 1 < owners id → h'.value id' = h.value id' := by
  obtain ⟨cell, hget, hcell, hcount⟩ := hc.get_eq hid
  have hrelease : h.release min (fun n => n == 0) id =
      some (if cell.refcount - 1 == 0 then (h.setCount id cell (cell.refcount - 1)).delete id
        else h.setCount id cell (cell.refcount - 1)) := by
    unfold Heap.release
    rw [hget]
    show (if min < cell.refcount then _ else none) = _
    rw [if_pos (by omega)]
  by_cases hone : owners id = 1
  · have hzero : cell.refcount - 1 = 0 := by omega
    rw [hzero, if_pos (by decide)] at hrelease
    refine ⟨_, hrelease, ?_, List.length_set, fun id' hid' => ?_⟩
    · rw [hone]
      exact hc.delete hid
    · rw [value_delete (by omega), value_setCount hcell]
  · have hleft : cell.refcount - 1 = (owners id - 1 : Nat) := by omega
    rw [hleft, if_neg (by simp; omega)] at hrelease
    exact ⟨_, hrelease, hc.setCount hid (by omega), List.length_set,
      fun id' _ => value_setCount hcell id'⟩

/-- With the opposite test, the count is wrong after every release: a cell that still has owners
is deleted, and one without owners is not. -/
theorem Counted.not_counted_of_release {min : Int} (hc : Counted h owners) (hid : 0 < owners id)
    (hmin : min ≤ 0) :
    ∃ h', h.release min (fun n => n != 0) id = some h' ∧ h'.cells.length = h.cells.length ∧
      (1 < owners id ∧ id ∈ h'.deleted ∨ owners id = 1 ∧ h'.deleted.count id = 0) := by
  obtain ⟨cell, hget, hcell, hcount⟩ := hc.get_eq hid
  have hrelease : h.release min (fun n => n != 0) id =
      some (if cell.refcount - 1 != 0 then (h.setCount id cell (cell.refcount - 1)).delete id
        else h.setCount id cell (cell.refcount - 1)) := by
    unfold Heap.release
    rw [hget]
    show (if min < cell.refcount then _ else none) = _
    rw [if_pos (by omega)]
  by_cases hone : owners id = 1
  · have hzero : cell.refcount - 1 = 0 := by omega
    rw [hzero] at hrelease
    exact ⟨_, hrelease, List.length_set,
      .inr ⟨hone, List.count_eq_zero_of_not_mem (hc.kept id hid)⟩⟩
  · rw [if_pos (by simp; omega)] at hrelease
    exact ⟨_, hrelease, List.length_set, .inl ⟨by omega,
      List.mem_append_right _ (List.mem_singleton_self id)⟩⟩

end RefCount
