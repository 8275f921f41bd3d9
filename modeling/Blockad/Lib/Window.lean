import Mathlib.Data.List.Basic
import Mathlib.Order.Lattice

/-!
# `Blockad.Lib.Window`: sliding windows over a sorted list

A list in ascending order is pruned at a bound from its front (`dropWhile`) or as a whole
(`filter`); both keep the elements from the bound on. A log that is pruned lazily, only when
it gets a new element, still answers every question about the elements from its last bound
on: `Covers` states this, `Covers.push` keeps it, and `Covers.length_push` reads the number
of elements in the window off the length of the log.

Pruning from the front is only right for a list in order: `le_of_mem_dropWhile_lt`,
`exists_mem_dropWhile_lt`.

Nothing here is about one program.
-/

set_option autoImplicit false

namespace Window

variable {α : Type} [LinearOrder α]

/-- Pruning a sorted list from its front is filtering it. -/
theorem dropWhile_lt_eq_filter_le {l : List α} (h : l.Pairwise (· ≤ ·)) (bound : α) :
    l.dropWhile (· < bound) = l.filter (bound ≤ ·) := by
  induction l with
  | nil => rfl
  | cons a l ih =>
    obtain ⟨hhead, htail⟩ := List.pairwise_cons.mp h
    by_cases ha : a < bound
    · rw [List.dropWhile_cons_of_pos (by simpa using ha), ih htail,
        List.filter_cons_of_neg (by simpa using ha)]
    · -- From the first element that stays, all the others stay as well.
      have hall : ∀ b ∈ a :: l, decide (bound ≤ b) = true := by
        intro b hb
        rcases List.mem_cons.mp hb with rfl | hb
        · simpa using ha
        · simpa using le_trans (not_lt.mp ha) (hhead b hb)
      rw [List.dropWhile_cons_of_neg (by simpa using ha), List.filter_eq_self.mpr hall]

/-- What pruning leaves of a list in order is in the window. -/
theorem le_of_mem_dropWhile_lt {l : List α} (h : l.Pairwise (· ≤ ·)) {bound t : α}
    (ht : t ∈ l.dropWhile (· < bound)) : bound ≤ t := by
  rw [dropWhile_lt_eq_filter_le h] at ht
  simpa using (List.mem_filter.mp ht).2

/-- Pruning a list that is not in order can leave an old element behind a new one. -/
theorem exists_mem_dropWhile_lt {l : List α} (h : ¬ l.Pairwise (· ≤ ·)) :
    ∃ bound, ∃ t ∈ l.dropWhile (· < bound), t < bound := by
  induction l with
  | nil => exact absurd .nil h
  | cons a l ih =>
    by_cases hhead : ∀ b ∈ l, a ≤ b
    · have htail : ¬ l.Pairwise (· ≤ ·) := fun hl => h (List.pairwise_cons.mpr ⟨hhead, hl⟩)
      obtain ⟨bound, t, ht, hlt⟩ := ih htail
      refine ⟨bound, t, ?_, hlt⟩
      by_cases ha : a < bound
      · rwa [List.dropWhile_cons_of_pos (by simpa using ha)]
      · rw [List.dropWhile_cons_of_neg (by simpa using ha)]
        exact List.mem_cons_of_mem a ((List.dropWhile_sublist _).mem ht)
    · -- The head itself is a bound at which nothing is pruned.
      obtain ⟨b, hb, hba⟩ : ∃ b ∈ l, b < a := by simpa using hhead
      refine ⟨a, b, ?_, hba⟩
      rw [List.dropWhile_cons_of_neg (by simp)]
      exact List.mem_cons_of_mem a hb

/-- What was pruned before does not matter at a later bound. -/
theorem filter_le_filter_le {bound bound' : α} (h : bound ≤ bound') (l : List α) :
    (l.filter (bound ≤ ·)).filter (bound' ≤ ·) = l.filter (bound' ≤ ·) := by
  rw [List.filter_filter]
  refine List.filter_congr fun a _ => ?_
  simpa using fun ha : bound' ≤ a => le_trans h ha

/-- The log `kept` has all the elements of `seen` from `bound` on. It is in order, and ends
at `latest` or before. -/
structure Covers (seen kept : List α) (latest bound : α) : Prop where
  sorted : kept.Pairwise (· ≤ ·)
  past : ∀ t ∈ kept, t ≤ latest
  window : ∀ b, bound ≤ b → kept.filter (b ≤ ·) = seen.filter (b ≤ ·)

namespace Covers

variable {seen kept : List α} {latest bound : α}

/-- The empty log covers the empty history. -/
theorem nil : Covers [] [] latest bound := ⟨.nil, by simp, fun _ _ => rfl⟩

/-- Time goes on, and the window moves with it. -/
theorem mono {latest' bound' : α} (h : Covers seen kept latest bound) (hlatest : latest ≤ latest')
    (hbound : bound ≤ bound') : Covers seen kept latest' bound' where
  sorted := h.sorted
  past t ht := le_trans (h.past t ht) hlatest
  window b hb := h.window b (le_trans hbound hb)

/-- The log is pruned at the bound, and gets the latest element. -/
theorem push (h : Covers seen kept latest bound) :
    Covers (seen ++ [latest]) (kept.dropWhile (· < bound) ++ [latest]) latest bound := by
  rw [dropWhile_lt_eq_filter_le h.sorted]
  refine ⟨?_, ?_, ?_⟩
  · rw [List.pairwise_append]
    refine ⟨h.sorted.filter _, List.pairwise_singleton _ _, ?_⟩
    intro t ht t' ht'
    rw [List.mem_singleton.mp ht']
    exact h.past t (List.mem_filter.mp ht).1
  · intro t ht
    rcases List.mem_append.mp ht with ht | ht
    · exact h.past t (List.mem_filter.mp ht).1
    · exact le_of_eq (List.mem_singleton.mp ht)
  · intro b hb
    rw [List.filter_append, filter_le_filter_le hb, h.window b hb, List.filter_append]

/-- Then its length is the number of elements in the window. -/
theorem length_push (h : Covers seen kept latest bound) (hlatest : bound ≤ latest) :
    (kept.dropWhile (· < bound) ++ [latest]).length
      = (seen ++ [latest]).countP (bound ≤ ·) := by
  rw [dropWhile_lt_eq_filter_le h.sorted, h.window bound le_rfl, List.countP_append,
    List.countP_eq_length_filter, List.length_append]
  simp [hlatest]

end Covers

end Window
