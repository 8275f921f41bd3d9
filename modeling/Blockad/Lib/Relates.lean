import Blockad.Lib.Prog

/-!
# `Blockad.Lib.Relates`: two programs with related states

`Relates` compares two programs on states that a relation holds between. They end in the same
way, and their states are still related then; after an exception another relation may hold. It may
also be left open what the first program does when the second one throws. `Prog.Mirrors` is the case
where one state is a function of the other, and `Prog.Preserves` the one where the programs are the
same.

Nothing here is about one program.
-/

set_option autoImplicit false

namespace Prog

variable {ε σ τ α β : Type} {rel : σ → τ → Prop} {after : Option (σ → τ → Prop)}

/-- The same result, in related states. With `after`, the same exceptions as well. -/
def EndsAlike (rel : σ → τ → Prop) (after : Option (σ → τ → Prop)) :
    EStateM.Result ε σ α → EStateM.Result ε τ α → Prop
  | .ok a s, .ok b t => a = b ∧ rel s t
  | .error _ _, .ok _ _ => False
  | r, .error e t => ∀ rel' ∈ after, ∃ s, r = .error e s ∧ rel' s t

/-- The programs agree on related states. -/
def Relates (rel : σ → τ → Prop) (after : Option (σ → τ → Prop)) (p : EStateM ε σ α)
    (q : EStateM ε τ α) : Prop :=
  ∀ s t, rel s t → EndsAlike rel after (p s) (q t)

/-- If the second program returned, so did the first. -/
theorem EndsAlike.of_ok {r : EStateM.Result ε σ α} {a : α} {t : τ}
    (h : EndsAlike rel after r (.ok a t)) : ∃ s, r = .ok a s ∧ rel s t := by
  cases r with
  | ok b s =>
    obtain ⟨rfl, hs⟩ := h
    exact ⟨s, rfl, hs⟩
  | error e s => exact h.elim

/-- If the second program threw, so did the first, and `after` holds then. -/
theorem endsAlike_error {r : EStateM.Result ε σ α} {e : ε} {t : τ} :
    EndsAlike rel after r (.error e t) ↔ ∀ rel' ∈ after, ∃ s, r = .error e s ∧ rel' s t := by
  cases r <;> rfl

/-- The same, with the relation that holds after an exception. -/
theorem EndsAlike.of_error {rel' : σ → τ → Prop} {r : EStateM.Result ε σ α} {e : ε} {t : τ}
    (h : EndsAlike rel (some rel') r (.error e t)) : ∃ s, r = .error e s ∧ rel' s t :=
  endsAlike_error.mp h rel' rfl

/-- Two programs that throw the same exception in related states end alike. -/
theorem EndsAlike.error {rel' : σ → τ → Prop} {s : σ} {t : τ} (h : rel' s t) (e : ε) :
    EndsAlike rel (some rel') (.error e s : EStateM.Result ε σ α) (.error e t) := by
  rintro rel'' ⟨⟩
  exact ⟨s, rfl, h⟩

/-- The exceptions of two programs that end alike are the same one. -/
theorem EndsAlike.of_errors {rel' : σ → τ → Prop} {e e' : ε} {s : σ} {t : τ}
    (h : EndsAlike rel (some rel') (.error e s : EStateM.Result ε σ α) (.error e' t)) :
    e = e' ∧ rel' s t := by
  obtain ⟨s', hs', hrel'⟩ := h.of_error
  cases hs'
  exact ⟨rfl, hrel'⟩

namespace Relates

variable {p : EStateM ε σ α} {q : EStateM ε τ α}

/-- Equal results are related. -/
theorem of_pure (a : α) :
    Relates rel after (pure a : EStateM ε σ α) (pure a) := fun _ _ h => ⟨rfl, h⟩

/-- The same exception is thrown in states that are related after it. -/
theorem of_throw (h : ∀ rel' ∈ after, ∀ s t, rel s t → rel' s t) (e : ε) :
    Relates rel after (throw e : EStateM ε σ α) (throw e) :=
  fun s t hs rel' hrel' => ⟨s, rfl, h rel' hrel' s t hs⟩

/-- Changes that keep the states related. -/
theorem of_modify {f : σ → σ} {g : τ → τ} (h : ∀ s t, rel s t → rel (f s) (g t)) :
    Relates rel after (modify f : EStateM ε σ PUnit) (modify g) := fun s t hs => ⟨rfl, h s t hs⟩

/-- Sequences are related, if their parts are. -/
theorem bind {p' : α → EStateM ε σ β} {q' : α → EStateM ε τ β} (hp : Relates rel after p q)
    (hp' : ∀ a, Relates rel after (p' a) (q' a)) : Relates rel after (p >>= p') (q >>= q') := by
  intro s t hs
  have hfirst := hp s t hs
  cases hq : q t with
  | ok a t₁ =>
    rw [hq] at hfirst
    obtain ⟨s₁, hrun, hs₁⟩ := hfirst.of_ok
    rw [bind_of_ok hrun, bind_of_ok hq]
    exact hp' a s₁ t₁ hs₁
  | error e t₁ =>
    rw [hq] at hfirst
    rw [bind_of_error hq]
    refine endsAlike_error.mpr fun rel' hrel' => ?_
    obtain ⟨s₁, hrun, hs₁⟩ := endsAlike_error.mp hfirst rel' hrel'
    exact ⟨s₁, bind_of_error hrun, hs₁⟩

/-- Branches are related, if their sides are. -/
theorem ite {c : Prop} [Decidable c] {p' : EStateM ε σ α} {q' : EStateM ε τ α}
    (hp : Relates rel after p q) (hp' : Relates rel after p' q') :
    Relates rel after (if c then p else p') (if c then q else q') := by
  split
  · exact hp
  · exact hp'

/-- Loops are related, if their turns are. -/
theorem forM {as : List β} {p : β → EStateM ε σ PUnit} {q : β → EStateM ε τ PUnit}
    (h : ∀ b, Relates rel after (p b) (q b)) : Relates rel after (as.forM p) (as.forM q) := by
  induction as with
  | nil => exact of_pure _
  | cons b as ih =>
    rw [List.forM_eq_forM, List.forM_eq_forM, List.forM_cons, List.forM_cons]
    exact bind (h b) fun _ => ih

end Relates

end Prog
