import Mathlib.Data.List.Basic

/-!
# `Blockad.Lib.Lines`: the lines of a growing list, by position

A line of a list is a stretch that ends with a terminator, has none before that, and starts at
the start of the list or after a terminator. A list that grows at its end keeps its lines, and
a line that ends at a given place can start at one place only.

Nothing here is about one program.
-/

set_option autoImplicit false

namespace Lines

variable {α : Type}

/-- The stretch of a list from `a` up to `b`. -/
def slice (l : List α) (a b : Nat) : List α := (l.take b).drop a

/-- A slice between equal positions is empty. -/
@[simp] theorem slice_self (l : List α) (a : Nat) : slice l a a = [] := by
  simp [slice]

/-- What comes after its end does not change a slice. -/
theorem slice_append {l : List α} {b : Nat} (h : b ≤ l.length) (more : List α) (a : Nat) :
    slice (l ++ more) a b = slice l a b := by
  rw [slice, List.take_append_of_le_length h, slice]

/-- One element more. -/
theorem slice_succ {l : List α} {a b : Nat} {x : α} (hab : a ≤ b) (hx : l[b]? = some x) :
    slice l a (b + 1) = slice l a b ++ [x] := by
  have hb : b < l.length := (List.getElem?_eq_some_iff.mp hx).1
  rw [slice, slice, List.take_add_one, hx, List.drop_append_of_le_length (by simp; omega)]
  rfl

/-- A slice up to the end is what is left from its start. -/
theorem slice_length (l : List α) (a : Nat) : slice l a l.length = l.drop a := by
  rw [slice, List.take_length]

/-- What follows a stretch. -/
theorem slice_append_drop {l : List α} {a b : Nat} (hab : a ≤ b) (hb : b ≤ l.length) :
    slice l a b ++ l.drop b = l.drop a := by
  have hlen : a ≤ (l.take b).length := by
    rw [List.length_take]
    omega
  rw [slice, ← List.drop_append_of_le_length hlen, List.take_append_drop]

/-- The elements of `l` from `a` up to `b` are a line with terminator `t`. -/
structure IsLine (t : α) (l : List α) (a b : Nat) : Prop where
  lt : a < b
  last : l[b - 1]? = some t
  inner : ∀ i < b - 1, a ≤ i → l[i]? ≠ some t
  start : a = 0 ∨ l[a - 1]? = some t

variable {t : α} {l : List α} {a b : Nat}

/-- The definition in terms of single positions, which can be decided. -/
theorem isLine_iff : IsLine t l a b ↔ a < b ∧ l[b - 1]? = some t ∧
    (∀ i < b - 1, a ≤ i → l[i]? ≠ some t) ∧ (a = 0 ∨ l[a - 1]? = some t) :=
  ⟨fun h => ⟨h.lt, h.last, h.inner, h.start⟩, fun h => ⟨h.1, h.2.1, h.2.2.1, h.2.2.2⟩⟩

instance [DecidableEq α] : Decidable (IsLine t l a b) := decidable_of_iff _ isLine_iff.symm

/-- A line stays a line when more is appended. -/
theorem isLine_append (h : b ≤ l.length) (more : List α) :
    IsLine t (l ++ more) a b ↔ IsLine t l a b := by
  rw [isLine_iff, isLine_iff]
  refine and_congr_right fun hlt => ?_
  have hsame : ∀ i < b, (l ++ more)[i]? = l[i]? := fun i hi =>
    List.getElem?_append_left (by omega)
  rw [hsame (b - 1) (by omega), hsame (a - 1) (by omega)]
  refine and_congr_right fun _ => and_congr_left fun _ => ?_
  refine forall₂_congr fun i hi => ?_
  rw [hsame i (by omega)]

/-- A line that ends at `b` starts where the stretch without a terminator before its end
starts, if it does not start before `limit`. -/
theorem IsLine.start_eq {s limit : Nat} (h : IsLine t l a (b + 1)) (hsb : s ≤ b)
    (hclean : ∀ i < b, s ≤ i → l[i]? ≠ some t) (hstart : s ≤ limit ∨ l[s - 1]? = some t)
    (hlimit : limit ≤ a) : a = s := by
  have hlt := h.lt
  rcases Nat.lt_trichotomy a s with has | has | has
  · rcases hstart with hs | hs
    · omega
    · -- The terminator before `s` would be inside the line.
      exact absurd hs (h.inner (s - 1) (by omega) (by omega))
  · exact has
  · rcases h.start with ha | ha
    · omega
    · -- The terminator before `a` would be in the clean stretch.
      exact absurd ha (hclean (a - 1) (by omega) (by omega))

end Lines
