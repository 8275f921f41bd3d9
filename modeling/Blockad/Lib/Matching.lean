import Mathlib.Data.List.Basic
import Mathlib.Data.List.Perm.Basic

/-!
# `Blockad.Lib.Matching`: two lists, position by position

`common xs ys` is what two lists have in common position by position, and `differing xs ys` is
the rest of `ys`. As multisets, two lists may have more in common than that: `common` is all of
it exactly when no element is in the rest of both (`count_common_eq_min_iff`).

Nothing here is about one program.
-/

set_option autoImplicit false

namespace Matching

variable {α : Type} [BEq α]

/-- The elements that are at the same position in both lists. -/
def common : List α → List α → List α
  | x :: xs, y :: ys => if x == y then x :: common xs ys else common xs ys
  | _, _ => []

/-- The other elements of the second list. -/
def differing : List α → List α → List α
  | x :: xs, y :: ys => if x == y then differing xs ys else y :: differing xs ys
  | _, ys => ys

/-- Nothing is in common with the empty list. -/
@[simp] theorem common_nil_right (xs : List α) : common xs [] = [] := by
  cases xs <;> rfl

/-- Everything differs from the empty list. -/
@[simp] theorem differing_nil_left (ys : List α) : differing [] ys = ys := by
  cases ys <;> rfl

/-- The empty list has nothing that differs. -/
@[simp] theorem differing_nil_right (xs : List α) : differing xs [] = [] := by
  cases xs <;> rfl

variable [LawfulBEq α]

/-- Equal heads are in common. -/
@[simp] theorem common_cons_self (x : α) (xs ys : List α) :
    common (x :: xs) (x :: ys) = x :: common xs ys := by
  simp [common]

/-- Equal heads do not differ. -/
@[simp] theorem differing_cons_self (x : α) (xs ys : List α) :
    differing (x :: xs) (x :: ys) = differing xs ys := by
  simp [differing]

/-- Different heads are not in common. -/
theorem common_cons_of_ne {x y : α} (h : x ≠ y) (xs ys : List α) :
    common (x :: xs) (y :: ys) = common xs ys := by
  simp [common, h]

/-- The second of two different heads differs. -/
theorem differing_cons_of_ne {x y : α} (h : x ≠ y) (xs ys : List α) :
    differing (x :: xs) (y :: ys) = y :: differing xs ys := by
  simp [differing, h]

/-- What two lists have in common does not depend on their order. -/
theorem common_comm (xs ys : List α) : common xs ys = common ys xs := by
  induction xs generalizing ys with
  | nil => simp [common]
  | cons x xs ih =>
    cases ys with
    | nil => rfl
    | cons y ys =>
      by_cases h : x = y
      · subst h
        simp [ih]
      · rw [common_cons_of_ne h, common_cons_of_ne (Ne.symm h), ih]

/-- Each element of the second list is at a common position, or it is not. -/
theorem count_eq (xs ys : List α) (a : α) :
    ys.count a = (common xs ys).count a + (differing xs ys).count a := by
  induction xs generalizing ys with
  | nil => simp [common]
  | cons x xs ih =>
    cases ys with
    | nil => simp
    | cons y ys =>
      have hys := ih ys
      by_cases h : x = y
      · subst h
        rw [common_cons_self, differing_cons_self, List.count_cons, List.count_cons]
        omega
      · rw [common_cons_of_ne h, differing_cons_of_ne h, List.count_cons, List.count_cons]
        omega

/-- The common positions match as much as can be matched unless an element is left on both
sides. -/
theorem count_common_eq_min_iff (xs ys : List α) (a : α) :
    (common xs ys).count a = min (xs.count a) (ys.count a) ↔
      ¬ (a ∈ differing xs ys ∧ a ∈ differing ys xs) := by
  have hys := count_eq xs ys a
  have hxs := count_eq ys xs a
  rw [common_comm] at hxs
  rw [← List.count_pos_iff, ← List.count_pos_iff]
  omega

end Matching
