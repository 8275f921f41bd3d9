import Mathlib.Logic.Function.Basic

/-!
# `Blockad.Lib.Keyed`: one machine for each key

A machine takes inputs one after the other, and each of them may give outputs. With a key in
each input, there is one copy of the machine for each key, and an input is for the copy of its
key. `product_run` says that a copy sees its own inputs only: its state and its outputs are
those of a run on these alone.

Nothing here is about one program.
-/

set_option autoImplicit false

namespace Keyed

variable {κ σ ι ο : Type}

/-- The next state and the outputs, from a state and an input. -/
abbrev Machine (σ ι ο : Type) := σ → ι → σ × List ο

/-- A run over some inputs. -/
def Machine.run (m : Machine σ ι ο) : σ → List ι → σ × List ο
  | s, [] => (s, [])
  | s, x :: xs => ((m.run (m s x).1 xs).1, (m s x).2 ++ (m.run (m s x).1 xs).2)

/-- A run with one more input. -/
theorem Machine.run_concat (m : Machine σ ι ο) (s : σ) (xs : List ι) (x : ι) :
    m.run s (xs ++ [x]) =
      ((m (m.run s xs).1 x).1, (m.run s xs).2 ++ (m (m.run s xs).1 x).2) := by
  induction xs generalizing s with
  | nil => simp [run]
  | cons y ys ih => simp [run, ih]

variable [DecidableEq κ]

/-- The copies of a machine as one machine. -/
def product (key : ι → κ) (m : Machine σ ι ο) : Machine (κ → σ) ι ο := fun f x =>
  (Function.update f (key x) (m (f (key x)) x).1, (m (f (key x)) x).2)

/-- **A key depends on its own inputs only**, if the outputs have the key of their input. -/
theorem product_run {key : ι → κ} {key' : ο → κ} {m : Machine σ ι ο}
    (hkey : ∀ s x, ∀ o ∈ (m s x).2, key' o = key x) (f : κ → σ) (xs : List ι) (k : κ) :
    ((product key m).run f xs).1 k = (m.run (f k) (xs.filter (key · = k))).1 ∧
      ((product key m).run f xs).2.filter (key' · = k) =
        (m.run (f k) (xs.filter (key · = k))).2 := by
  induction xs generalizing f with
  | nil => exact ⟨rfl, rfl⟩
  | cons x xs ih =>
    obtain ⟨hstate, houtputs⟩ := ih (product key m f x).1
    rw [Machine.run, hstate, List.filter_append, houtputs]
    dsimp only [product]
    by_cases hk : key x = k
    · subst hk
      have hown : (m (f (key x)) x).2.filter (key' · = key x) = (m (f (key x)) x).2 :=
        List.filter_eq_self.mpr fun o ho => by simpa using hkey _ _ o ho
      rw [Function.update_self, hown, List.filter_cons_of_pos (by simp), Machine.run]
      exact ⟨rfl, rfl⟩
    · -- The input is for another copy.
      have hother : (m (f (key x)) x).2.filter (key' · = k) = [] :=
        List.filter_eq_nil_iff.mpr fun o ho => by simpa [hkey _ _ o ho] using hk
      rw [Function.update_of_ne (Ne.symm hk), hother, List.filter_cons_of_neg (by simpa using hk)]
      exact ⟨rfl, rfl⟩

end Keyed
