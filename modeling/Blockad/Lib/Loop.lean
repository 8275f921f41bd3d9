import Blockad.Lib.Runs
import Mathlib.Order.Basic

/-!
# `Blockad.Lib.Loop`: loops that may not end

A loop is given by its turn, which goes on from another state or leaves the loop. `run` follows
it for a number of turns. The rule for a loop that ends is `exists_of_measure`: with an invariant,
and a measure that every turn makes smaller, enough turns give a result. `Visits` is for what
holds at every turn, also of a loop that does not end.

Nothing here is about one program.
-/

set_option autoImplicit false

namespace Loop

open Runs

variable {σ τ β γ : Type}

/-- What a turn does. -/
inductive Turn (σ β : Type) where
  | next (s : σ)
  | done (b : β)

/-- The loop, for `fuel` turns at most. -/
def run (turn : σ → Turn σ β) : Nat → σ → Option β
  | 0, _ => none
  | fuel + 1, s =>
    match turn s with
    | .next s' => run turn fuel s'
    | .done b => some b

variable {turn : σ → Turn σ β} {s s' : σ} {b : β} {fuel : Nat}

/-- A turn that goes on costs one unit of fuel. -/
theorem run_of_next (h : turn s = .next s') : run turn (fuel + 1) s = run turn fuel s' := by
  rw [run, h]

/-- A turn that leaves the loop gives its result. -/
theorem run_of_done (h : turn s = .done b) : run turn (fuel + 1) s = some b := by
  rw [run, h]

/-! ### What every turn finds -/

/-- The states in which a turn of the loop from `s₀` begins. -/
def Visits (turn : σ → Turn σ β) (s₀ : σ) : σ → Prop :=
  Reachable (· = s₀) fun s (_ : Unit) s' => turn s = .next s'

/-- The states that are visited are closed under turns. -/
theorem Visits.next {s₀ : σ} (hs : Visits turn s₀ s) (h : turn s = .next s') :
    Visits turn s₀ s' := Reachable.next () hs h

/-- The invariant rule. -/
theorem Visits.invariant {inv : σ → Prop} {s₀ : σ} (h : Visits turn s₀ s) (h₀ : inv s₀)
    (hnext : ∀ s s', inv s → turn s = .next s' → inv s') : inv s :=
  Reachable.invariant h (fun _ hs => hs ▸ h₀) fun s _ s' => hnext s s'

/-! ### Loops that end -/

/-- **The loop rule.** -/
theorem exists_of_measure {inv : σ → Prop} {measure : σ → Nat} {post : β → Prop}
    (hnext : ∀ s s', inv s → turn s = .next s' → inv s' ∧ measure s' < measure s)
    (hdone : ∀ s b, inv s → turn s = .done b → post b) (hs : inv s) (hfuel : measure s < fuel) :
    ∃ b, run turn fuel s = some b ∧ post b := by
  induction fuel generalizing s with
  | zero => exact absurd hfuel (Nat.not_lt_zero _)
  | succ fuel ih =>
    cases hturn : turn s with
    | next s' =>
      obtain ⟨hs', hlt⟩ := hnext s s' hs hturn
      rw [run_of_next hturn]
      exact ih hs' (by omega)
    | done b =>
      rw [run_of_done hturn]
      exact ⟨b, rfl, hdone s b hs hturn⟩

/-- More turns do not change a result. -/
theorem run_mono {fuel' : Nat} (h : run turn fuel s = some b) (hle : fuel ≤ fuel') :
    run turn fuel' s = some b := by
  induction fuel generalizing s fuel' with
  | zero => cases h
  | succ fuel ih =>
    obtain ⟨fuel'', rfl⟩ : ∃ n, fuel' = n + 1 := ⟨fuel' - 1, by omega⟩
    cases hturn : turn s with
    | next s' =>
      rw [run_of_next hturn] at h ⊢
      exact ih h (by omega)
    | done b' =>
      rw [run_of_done hturn] at h ⊢
      exact h

end Loop
