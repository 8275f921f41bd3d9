import Mathlib.Data.List.Basic

/-!
# `Blockad.Lib.Pieces`: cutting a list after each terminator

`pieces t xs` are the pieces of `xs` that end with the terminator `t`, and `rest t xs` is what
follows the last of them. `pieces_append` and `rest_append` say that a list can be cut as its
parts come in, with the rest of the parts so far in front of the next one.
`pieces_append_eq_iff` says when something in front of a list does not change its pieces.

Nothing here is about one program.
-/

set_option autoImplicit false

namespace Pieces

variable {α : Type} [DecidableEq α]

/-- The pieces of a list after an unfinished one, and the new unfinished one. -/
def cut (t : α) (started : List α) : List α → List (List α) × List α
  | [] => ([], started)
  | x :: xs =>
    if x = t then ((started ++ [x]) :: (cut t [] xs).1, (cut t [] xs).2)
    else cut t (started ++ [x]) xs

/-- The pieces that end with the terminator. -/
def pieces (t : α) (xs : List α) : List (List α) := (cut t [] xs).1

/-- What follows the last terminator. -/
def rest (t : α) (xs : List α) : List α := (cut t [] xs).2

/-- A piece ends with its only terminator. -/
def IsPiece (t : α) (p : List α) : Prop := ∃ q, p = q ++ [t] ∧ t ∉ q

variable {t : α}

/-- The terminator ends the piece that was begun. -/
theorem cut_nl (started xs : List α) :
    cut t started (t :: xs) = ((started ++ [t]) :: (cut t [] xs).1, (cut t [] xs).2) :=
  if_pos rfl

/-- Any other element belongs to the piece that was begun. -/
theorem cut_of_ne {x : α} (h : x ≠ t) (started xs : List α) :
    cut t started (x :: xs) = cut t (started ++ [x]) xs :=
  if_neg h

/-- Cutting goes on where it stopped. -/
theorem cut_append (started xs ys : List α) :
    cut t started (xs ++ ys) =
      ((cut t started xs).1 ++ (cut t (cut t started xs).2 ys).1,
        (cut t (cut t started xs).2 ys).2) := by
  induction xs generalizing started with
  | nil => rfl
  | cons x xs ih =>
    rw [List.cons_append]
    by_cases hx : x = t
    · subst hx
      rw [cut_nl, cut_nl, ih]
      rfl
    · rw [cut_of_ne hx, cut_of_ne hx, ih]

/-- Without a terminator, no piece ends. -/
theorem cut_of_notMem {xs : List α} (h : t ∉ xs) (started : List α) :
    cut t started xs = ([], started ++ xs) := by
  induction xs generalizing started with
  | nil => simp [cut]
  | cons x xs ih =>
    rw [List.mem_cons, not_or] at h
    rw [cut_of_ne (Ne.symm h.1), ih h.2, List.append_assoc]
    rfl

/-- An unfinished piece is a list without a terminator. -/
theorem cut_eq {started : List α} (h : t ∉ started) (xs : List α) :
    cut t started xs = (pieces t (started ++ xs), rest t (started ++ xs)) := by
  rw [pieces, rest, cut_append, cut_of_notMem h]
  rfl

/-- Nothing is lost by cutting. -/
theorem flatten_cut (started xs : List α) :
    (cut t started xs).1.flatten ++ (cut t started xs).2 = started ++ xs := by
  induction xs generalizing started with
  | nil => simp [cut]
  | cons x xs ih =>
    by_cases hx : x = t
    · subst hx
      rw [cut_nl, List.flatten_cons, List.append_assoc, ih]
      simp
    · rw [cut_of_ne hx, ih]
      simp

/-- Each piece ends at its first terminator, and the rest has none. -/
theorem shape_cut {started : List α} (h : t ∉ started) (xs : List α) :
    (∀ p ∈ (cut t started xs).1, IsPiece t p) ∧ t ∉ (cut t started xs).2 := by
  induction xs generalizing started with
  | nil => exact ⟨by simp [cut], h⟩
  | cons x xs ih =>
    by_cases hx : x = t
    · subst hx
      obtain ⟨hpieces, hrest⟩ := ih (List.not_mem_nil (a := x))
      rw [cut_nl]
      refine ⟨?_, hrest⟩
      intro p hp
      rcases List.mem_cons.mp hp with rfl | hp
      · exact ⟨started, rfl, h⟩
      · exact hpieces p hp
    · rw [cut_of_ne hx]
      exact ih (by simpa [h] using Ne.symm hx)

/-! ### The pieces of a list -/

/-- The empty list has no pieces. -/
@[simp] theorem pieces_nil : pieces t [] = [] := rfl

/-- The empty list has no rest. -/
@[simp] theorem rest_nil : rest t [] = [] := rfl

/-- Nothing is lost. -/
theorem flatten_pieces (xs : List α) : (pieces t xs).flatten ++ rest t xs = xs :=
  flatten_cut [] xs

/-- The pieces of a list are pieces. -/
theorem isPiece_of_mem {xs p : List α} (h : p ∈ pieces t xs) : IsPiece t p :=
  (shape_cut List.not_mem_nil xs).1 p h

/-- The rest has no terminator. -/
theorem notMem_rest (xs : List α) : t ∉ rest t xs := (shape_cut List.not_mem_nil xs).2

/-- The list may come in parts. -/
theorem pieces_append (xs ys : List α) :
    pieces t (xs ++ ys) = pieces t xs ++ pieces t (rest t xs ++ ys) := by
  show (cut t [] (xs ++ ys)).1 = _
  rw [cut_append]
  show pieces t xs ++ (cut t (rest t xs) ys).1 = _
  rw [cut_eq (notMem_rest xs)]

/-- The rest of the first part is the start of the second. -/
theorem rest_append (xs ys : List α) : rest t (xs ++ ys) = rest t (rest t xs ++ ys) := by
  show (cut t [] (xs ++ ys)).2 = _
  rw [cut_append]
  show (cut t (rest t xs) ys).2 = _
  rw [cut_eq (notMem_rest xs)]

/-- A list without a terminator has no pieces. -/
theorem pieces_of_notMem {xs : List α} (h : t ∉ xs) : pieces t xs = [] := by
  rw [pieces, cut_of_notMem h]

/-- A list without a terminator is all rest. -/
theorem rest_of_notMem {xs : List α} (h : t ∉ xs) : rest t xs = xs := by
  rw [rest, cut_of_notMem h, List.nil_append]

/-- A piece in front is the first one. -/
theorem pieces_cons_of_isPiece {p : List α} (h : IsPiece t p) (xs : List α) :
    pieces t (p ++ xs) = p :: pieces t xs := by
  obtain ⟨q, rfl, hq⟩ := h
  have hcut : cut t [] (q ++ [t] ++ xs) = ((q ++ [t]) :: (cut t [] xs).1, (cut t [] xs).2) := by
    rw [List.append_assoc, cut_append, cut_of_notMem hq]
    exact cut_nl q xs
  rw [pieces, hcut]
  rfl

/-- Pieces one after another. -/
theorem pieces_flatten {ps : List (List α)} (h : ∀ p ∈ ps, IsPiece t p) :
    pieces t ps.flatten = ps := by
  induction ps with
  | nil => rfl
  | cons p ps ih =>
    rw [List.flatten_cons, pieces_cons_of_isPiece (h p List.mem_cons_self),
      ih fun q hq => h q (List.mem_cons_of_mem p hq)]

/-- Whole pieces leave no rest. -/
theorem rest_flatten {ps : List (List α)} (h : ∀ p ∈ ps, IsPiece t p) : rest t ps.flatten = [] := by
  have hwhole := flatten_pieces (t := t) ps.flatten
  rw [pieces_flatten h] at hwhole
  exact List.append_right_eq_self.mp hwhole

/-- There are as many pieces as terminators. -/
theorem length_cut (started xs : List α) : (cut t started xs).1.length = xs.count t := by
  induction xs generalizing started with
  | nil => rfl
  | cons x xs ih =>
    by_cases hx : x = t
    · subst hx
      rw [cut_nl, List.length_cons, ih, List.count_cons_self]
    · rw [cut_of_ne hx, ih, List.count_cons_of_ne hx]

/-- There is a piece for each terminator. -/
theorem length_pieces (xs : List α) : (pieces t xs).length = xs.count t := length_cut [] xs

/-- What stands in front of a list changes its pieces, unless there is nothing in front or no
piece at all. -/
theorem pieces_append_eq_iff (xs ys : List α) :
    pieces t (xs ++ ys) = pieces t ys ↔ xs = [] ∨ t ∉ xs ++ ys := by
  constructor
  · intro h
    have hcount := congrArg List.length h
    rw [length_pieces, length_pieces, List.count_append] at hcount
    have hxs : t ∉ xs := List.count_eq_zero.mp (by omega)
    by_cases hys : t ∈ ys
    · -- The first piece would be longer by `xs`.
      obtain ⟨as, bs, rfl, has⟩ := List.eq_append_cons_of_mem hys
      have hlong : IsPiece t (xs ++ as ++ [t]) := ⟨xs ++ as, rfl, by simp [hxs, has]⟩
      have hshort : IsPiece t (as ++ [t]) := ⟨as, rfl, has⟩
      have hl := pieces_cons_of_isPiece hlong bs
      have hr := pieces_cons_of_isPiece hshort bs
      simp only [List.append_assoc, List.singleton_append] at hl hr
      rw [hl, hr] at h
      exact .inl (List.self_eq_append_left.mp (List.cons.inj h).1.symm)
    · exact .inr (by simp [hxs, hys])
  · rintro (rfl | hnone)
    · rfl
    · rw [pieces_of_notMem hnone, pieces_of_notMem fun h => hnone (List.mem_append_right _ h)]

/-- The pieces, and what follows them as the last one if it is not empty. -/
def parts (t : α) (xs : List α) : List (List α) :=
  pieces t xs ++ if rest t xs = [] then [] else [rest t xs]

/-- The pieces and the rest are the whole list. -/
theorem flatten_parts (xs : List α) : (parts t xs).flatten = xs := by
  have hrest : (if rest t xs = [] then [] else [rest t xs]).flatten = rest t xs := by
    by_cases h : rest t xs = []
    · rw [if_pos h, h]
      rfl
    · rw [if_neg h, List.flatten_singleton]
  rw [parts, List.flatten_append, hrest, flatten_pieces]

/-- A list without a terminator is one part, if it is not empty. -/
theorem parts_of_notMem {xs : List α} (h : t ∉ xs) :
    parts t xs = if xs = [] then [] else [xs] := by
  rw [parts, pieces_of_notMem h, rest_of_notMem h, List.nil_append]

end Pieces
