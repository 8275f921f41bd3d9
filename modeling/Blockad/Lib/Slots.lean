import Mathlib.Data.List.ReduceOption
import Mathlib.Data.List.Nodup
import Mathlib.Data.List.Perm.Basic

/-!
# `Blockad.Lib.Slots`: taking things out of slots

A vector whose things are taken one at a time, with an empty slot left behind, is a list of
options. `List.reduceOption` is what is left. What is taken and what is left are together what
was there (`reduceOption_perm_of_get`), and a permutation without duplicates says of each thing
on which side it is (`Shared`).

Nothing here is about one program.
-/

set_option autoImplicit false

namespace Slots

variable {α : Type}

/-- Full slots hold all of the list. -/
theorem reduceOption_map_some (as : List α) : (as.map some).reduceOption = as := by
  induction as with
  | nil => rfl
  | cons a as ih => simp [ih]

/-- A slot that is emptied loses its thing, and no other. -/
theorem reduceOption_perm_of_get {slots : List (Option α)} {j : Nat} {a : α}
    (h : slots[j]? = some (some a)) :
    slots.reduceOption.Perm (a :: (slots.set j none).reduceOption) := by
  induction slots generalizing j with
  | nil => simp at h
  | cons slot slots ih =>
    cases j with
    | zero =>
      simp at h
      simp [h]
    | succ j =>
      have hrest := ih (by simpa using h)
      cases slot with
      | none => simpa using hrest
      | some b => simpa using (hrest.cons b).trans (List.Perm.swap a b _)

/-- One step of a transfer: what leaves its slot is added at the end of the other side. -/
theorem perm_of_take {slots : List (Option α)} {taken : List α} {j : Nat} {a : α}
    (h : slots[j]? = some (some a)) :
    ((slots.set j none).reduceOption ++ (taken ++ [a])).Perm (slots.reduceOption ++ taken) := by
  have hslots := (reduceOption_perm_of_get h).append_right taken
  have hlast : ((slots.set j none).reduceOption ++ (taken ++ [a])).Perm
      (a :: ((slots.set j none).reduceOption ++ taken)) := by
    rw [← List.append_assoc]
    exact List.perm_append_singleton a _
  exact hlast.trans hslots.symm

/-- What is left joins what was discarded before. -/
theorem perm_of_discard {old made left result : List α} (discarded : List α)
    (h : (left ++ result).Perm (old ++ made)) :
    (result ++ (discarded ++ left)).Perm (old ++ discarded ++ made) := by
  classical
  refine List.perm_iff_count.mpr fun a => ?_
  have hcount := h.count_eq a
  simp only [List.count_append] at hcount ⊢
  omega

/-! ### Two sides -/

/-- Two lists that are together a list without duplicates. -/
structure Shared (left right whole : List α) : Prop where
  perm : (left ++ right).Perm whole
  nodup : whole.Nodup

namespace Shared

variable {left right whole : List α} {a : α}

/-- The two sides together have no duplicates. -/
theorem nodup_append (h : Shared left right whole) : (left ++ right).Nodup :=
  h.perm.nodup_iff.mpr h.nodup

/-- The left side has none. -/
theorem nodup_left (h : Shared left right whole) : left.Nodup := h.nodup_append.of_append_left

/-- Neither has the right side. -/
theorem nodup_right (h : Shared left right whole) : right.Nodup := h.nodup_append.of_append_right

/-- Nothing is on both sides. -/
theorem notMem_left (h : Shared left right whole) (ha : a ∈ right) : a ∉ left := fun hleft =>
  List.disjoint_of_nodup_append h.nodup_append hleft ha

/-- Everything is on one side or the other. -/
theorem mem_iff (h : Shared left right whole) : a ∈ whole ↔ a ∈ left ∨ a ∈ right := by
  rw [← h.perm.mem_iff, List.mem_append]

end Shared

end Slots
