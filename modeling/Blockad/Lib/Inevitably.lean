import Mathlib.Order.Basic

/-!
# `Blockad.Lib.Inevitably`: what every run comes to

`Inevitably step post s` says that every run from `s` comes to a state of `post`, whatever steps
it takes. The rule for it is `inevitably_of_measure`: with an invariant under which a state is of
`post` or has a step, and a measure that each step makes smaller, as long as the run has not come to
`post`.

Nothing here is about one program.
-/

set_option autoImplicit false

namespace Inevitability

variable {σ : Type} {step : σ → σ → Prop} {post : σ → Prop}

/-- Every run from this state comes to a state of `post`. -/
inductive Inevitably (step : σ → σ → Prop) (post : σ → Prop) : σ → Prop where
  | now {s : σ} (h : post s) : Inevitably step post s
  | later {s : σ} (hstep : ∃ s', step s s') (h : ∀ s', step s s' → Inevitably step post s') :
      Inevitably step post s

/-- **The progress rule.** -/
theorem inevitably_of_measure (inv : σ → Prop) (measure : σ → Nat)
    (hprogress : ∀ s, inv s → post s ∨ ∃ s', step s s')
    (hstep : ∀ s s', inv s → ¬ post s → step s s' → post s' ∨ inv s' ∧ measure s' < measure s)
    {s : σ} (hs : inv s) : Inevitably step post s := by
  generalize hn : measure s = n
  induction n using Nat.strongRecOn generalizing s with
  | ind n ih =>
    by_cases hpost : post s
    · exact .now hpost
    · refine .later ((hprogress s hs).resolve_left hpost) fun s' hs' => ?_
      rcases hstep s s' hs hpost hs' with hpost' | ⟨hinv, hlt⟩
      · exact .now hpost'
      · exact ih _ (hn ▸ hlt) hinv rfl

/-- What is inevitable, with what holds along the way. -/
theorem Inevitably.along {post' : σ → Prop} (inv : σ → Prop) {s : σ} (h : Inevitably step post s)
    (hs : inv s) (hstep : ∀ s s', inv s → ¬ post s → step s s' → inv s')
    (hpost : ∀ s, inv s → post s → post' s) : Inevitably step post' s := by
  induction h with
  | now h => exact .now (hpost _ hs h)
  | @later s hcan _ ih =>
    by_cases hpost' : post s
    · exact .now (hpost s hs hpost')
    · exact .later hcan fun s' hs' => ih s' hs' (hstep s s' hs hpost' hs')

end Inevitability
